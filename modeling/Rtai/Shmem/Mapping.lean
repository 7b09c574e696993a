import Rtai.Shmem.AreaCounts

/-!
# The mapping of the shared memory

A process requests an area by a name, and maps it with a call that has no name: `rtai_shm_mmap`
takes the first pair of the process that has not been mapped, in the order of the table.  It
marks the pair as mapped before the pages are.

The driver is called again when a mapping goes, unless `rtai_free` has taken the operations of
the mapping away.  It then releases the pair itself, in a request of its own.

Once an `rvmalloc` has failed, with `shm_lock` taken, no call returns on SMP: a run there ends
with it.
-/

namespace Rtai.Shmem

open Function Rtai.Lib

/-- A `vm_area_struct` that is to be mapped.  `remapped` says whether `remap_page_range` is able
to. -/
structure Vma where
  address : Nat
  start : UInt32
  size : UInt32
  offset : UInt32
  remapped : Bool

/-- A mapping of a pair, with the memory that it is of. -/
structure Mapping where
  vma : Nat
  pair : NamePid
  adr : UInt32
  size : UInt32
deriving DecidableEq

/-- The tables, and whether the operations of a `vm_area_struct` are those of the driver.
`maps` has the mappings, and `recent` the names that a process has requested and neither
mapped nor freed, the last in front; they outlive it, so its number is not used again before. -/
structure Sys where
  tables : State := {}
  vmOps : Nat → Bool := fun _ => false
  maps : List Mapping := []
  recent : UInt32 → List UInt32 := fun _ => []

def rvmmap (mem memsize : UInt32) (vma : Vma) : Bool :=
  !(vma.size + vma.offset > memsize || (mem + vma.offset) % PAGE_SIZE != 0 ||
    vma.start % PAGE_SIZE != 0 || vma.size % PAGE_SIZE != 0) && vma.remapped

namespace State

/-- `rtai_shm_vm_close`, called by the process `pid`. -/
def rtaiShmVmClose (vma : Nat) (pid : UInt32) (s : State) : State :=
  match first MAX_OWNERS fun owner =>
      s.vmarea owner = .vma vma ∧ (s.namePidList owner).PID = pid with
  | some owner =>
      match s.findName (s.namePidList owner).NAME with
      | some slot => s.rtaiKfreeF (s.shmList slot).name pid
      | none => s
  | none => s

end State

namespace Sys

/-- The first request of `shm_handler`. -/
def request (pid name : UInt32) (size : Int32) (adr : UInt32) (s : Sys) : Sys :=
  let result := s.tables.rtaiKmallocF name size pid adr
  { s with
    tables := result.2
    recent := if result.1 ≠ 0 then update s.recent pid (name :: s.recent pid) else s.recent }

/-- The second one.  It is a fault to look for the operations behind a mark, or at a structure
that has none. -/
def getSize (pid name : UInt32) (s : Sys) : Option (UInt32 × Sys) :=
  match first MAX_OWNERS fun owner => s.tables.namePidList owner = ⟨name, pid⟩ with
  | some owner =>
      match s.tables.vmarea owner with
      | .null => some (0, s)
      | .mappable _ => none
      | .vma vma =>
          if s.vmOps vma then
            let s := { s with vmOps := update s.vmOps vma false }
            match s.tables.findName name with
            | some slot => some ((s.tables.shmList slot).size, s)
            | none => some (0, s)
          else none
  | none => some (0, s)

/-- The third one. -/
def free (pid name : UInt32) (s : Sys) : Sys :=
  { s with
    tables := s.tables.rtaiKfreeF name pid
    recent := update s.recent pid ((s.recent pid).erase name) }

/-- Returns the mapping, if the pages are mapped. -/
def rtaiShmMmap (pid : UInt32) (vma : Vma) (s : Sys) : Option Mapping × Sys :=
  match first MAX_OWNERS fun owner =>
      (s.tables.namePidList owner).PID = pid ∧ s.tables.vmarea owner = .mappable pid with
  | some owner =>
      let pair := s.tables.namePidList owner
      match s.tables.findName pair.NAME with
      | some slot =>
          let x := s.tables.shmList slot
          let s := { s with
            tables := { s.tables with vmarea := update s.tables.vmarea owner (.vma vma.address) }
            vmOps := update s.vmOps vma.address true }
          if rvmmap x.adr x.size vma then (some ⟨vma.address, pair, x.adr, x.size⟩, s) else (none, s)
      | none => (none, s)
  | none => (none, s)

/-- The structure is given up when the call fails. -/
def mmap (pid : UInt32) (vma : Vma) (s : Sys) : Sys :=
  match s.rtaiShmMmap pid vma with
  | (some m, s) =>
      { s with
        maps := m :: s.maps
        recent := update s.recent pid ((s.recent pid).erase m.pair.NAME) }
  | (none, s) => { s with vmOps := update s.vmOps vma.address false }

/-- A mapping goes. -/
def unmap (pid : UInt32) (m : Mapping) (s : Sys) : Sys :=
  { s with
    tables := if s.vmOps m.vma then s.tables.rtaiShmVmClose m.vma pid else s.tables
    vmOps := update s.vmOps m.vma false
    maps := s.maps.filter (·.vma ≠ m.vma) }

/-- All mappings of a process go. -/
def exit (pid : UInt32) (s : Sys) : Sys :=
  (s.maps.filter (·.pair.PID = pid)).foldl (fun s m => s.unmap pid m) s

end Sys

inductive Request where
  | request (pid name : UInt32) (size : Int32) (adr : UInt32)
  | mmap (pid : UInt32) (vma : Vma)
  | getSize (pid name : UInt32)
  | free (pid name : UInt32)
  | unmap (pid : UInt32) (vma : Nat)
  | exit (pid : UInt32)

namespace Sys

/-- A structure that is mapped is not used for another mapping. -/
def step : Request → Sys → Option Sys
  | .request pid name size adr, s => some (s.request pid name size adr)
  | .mmap pid vma, s =>
      if s.maps.all (·.vma ≠ vma.address) then some (s.mmap pid vma) else none
  | .getSize pid name, s => (s.getSize pid name).map (·.2)
  | .free pid name, s => some (s.free pid name)
  | .unmap pid vma, s =>
      match s.maps.find? fun m => m.vma = vma ∧ m.pair.PID = pid with
      | some m => some (s.unmap pid m)
      | none => none
  | .exit pid, s => some (s.exit pid)

end Sys

end Rtai.Shmem
