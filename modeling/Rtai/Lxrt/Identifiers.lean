import Rtai.Lib.Run

/-!
# Task identifiers

`assign_pid`, the virtual circuits and the alias names, and the hash table that leads from a
task to its pid.  `tab` has a slot for every value of the low byte of a pid, of which the
first and the last are not used; a slot counts in `version` how often it was assigned.

Beside the two tables the state keeps what the pids stand for: the task or the reservation
that each has been assigned to, and the pids released.  A task is known by the number of
tasks created before it, since its memory may be that of a task deleted.
-/

namespace Rtai.Lxrt.Identifiers

open Function Rtai.Lib

/-- `pid_t`. -/
abbrev Pid := BitVec 32

/-- `RT_TASK *`. -/
abbrev TaskPtr := BitVec 32

def MASKPID : Pid := 0xFF

def ARCNVCF : BitVec 32 := 0x8000

/-- What `rt_vc_reserve` assigns a pid to. -/
def RESERVED : TaskPtr := 0xFFFFFFFF

def ENOMEM : Int := 12
def ESRCH : Int := 3

/-- `struct t_pid_vc`. -/
structure Slot where
  name : Option String := none
  task : TaskPtr := 0
  live : BitVec 8 := 0
  version : BitVec 8 := 0
  pid : Pid := 0

/-- `struct t_cell`, without the link. -/
structure Cell where
  pid : Pid
  task : TaskPtr
deriving DecidableEq

structure Tables where
  tab : Nat → Slot := fun _ => {}
  hash : Nat → List Cell := fun _ => []

/-- `pid & MASKPID`. -/
def idx (pid : Pid) : Nat := (pid &&& MASKPID).toNat

def HASH_MAX : Nat := 251

def hashIdx (pt : TaskPtr) : Nat := pt.toNat % HASH_MAX

namespace Tables

def setSlot (i : Nat) (slot : Slot) (s : Tables) : Tables := { s with tab := update s.tab i slot }

def setChain (task : TaskPtr) (chain : List Cell) (s : Tables) : Tables :=
  { s with hash := update s.hash (hashIdx task) chain }

/-- The chain that the task's cells are on. -/
def chain (task : TaskPtr) (s : Tables) : List Cell := s.hash (hashIdx task)

/-! ## The hash table -/

/-- `memory` is whether `rt_malloc` returns a cell. -/
def linkTask (pid : Pid) (task : TaskPtr) (memory : Bool) (s : Tables) : Tables × Int :=
  if task = 0 then (s, -ENOMEM)
  else if memory then (s.setChain task (s.chain task ++ [⟨pid, task⟩]), 0)
  else (s, -ENOMEM)

def unlinkTask (pid : Pid) (task : TaskPtr) (s : Tables) : Tables × Int :=
  if ⟨pid, task⟩ ∈ s.chain task then (s.setChain task ((s.chain task).erase ⟨pid, task⟩), 0)
  else (s, -ESRCH)

def rttask2pid (task : TaskPtr) (s : Tables) : Pid :=
  if task = 0 then 0
  else ((s.chain task).find? fun cell => cell.task = task).elim 0 Cell.pid

/-! ## The slots -/

/-- The slot that the loop of `__assign_pid` stops at. -/
def freeSlot (s : Tables) : Option Nat :=
  (List.range' 1 254).find? fun i => (s.tab i).live = 0

/-- `tab[i].version` after the increment. -/
def nextVersion (slot : Slot) : BitVec 8 :=
  ((slot.version + 1).setWidth 32 &&& ~~~ARCNVCF).setWidth 8

/-- `(tab[i].version << 8) | type | i`, with the version incremented. -/
def nextPid (slot : Slot) (type : BitVec 32) (i : Nat) : Pid :=
  ((nextVersion slot).setWidth 32 <<< 8) ||| type ||| BitVec.ofNat 32 i

/-- `__assign_pid`. -/
def assignTyped (task : TaskPtr) (type : BitVec 32) (memory : Bool) (s : Tables) : Tables × Pid :=
  match s.freeSlot with
  | some i =>
      let pid := nextPid (s.tab i) type i
      let slot : Slot :=
        { version := nextVersion (s.tab i), task := task, pid := pid, live := (s.tab i).live + 1 }
      (((s.setSlot i slot).linkTask pid task memory).1, pid)
  | none => ((s.linkTask 0 task memory).1, 0)

def assignPid (task : TaskPtr) (memory : Bool) (s : Tables) : Tables × Pid :=
  s.assignTyped task 0 memory

def assignVc (task : TaskPtr) (memory : Bool) (s : Tables) : Tables × Pid :=
  s.assignTyped task ARCNVCF memory

def rtVcReserve (memory : Bool) (s : Tables) : Tables × Pid :=
  s.assignTyped RESERVED ARCNVCF memory

/-- `memory` is whether there is room for the name. -/
def assignAliasName (pid : Pid) (name : Option String) (memory : Bool) (s : Tables) : Tables :=
  if idx pid = 0 ∨ idx pid = 255 then s
  else if name.isSome then
    s.setSlot (idx pid) { s.tab (idx pid) with name := if memory then name else none }
  else s

/-- `release_vc`. -/
def rtVcRelease (pid : Pid) (s : Tables) : Tables × Int :=
  if idx pid = 0 ∨ idx pid = 255 then (s, -ESRCH)
  else
    let s := (s.unlinkTask pid (s.tab (idx pid)).task).1
    (s.setSlot (idx pid) { s.tab (idx pid) with live := 0, task := 0, name := none }, 0)

/-- `whoami` is the task that attaches the circuit. -/
def rtVcAttach (pid : Pid) (whoami : TaskPtr) (memory : Bool) (s : Tables) : Tables × Int :=
  if idx pid = 0 ∨ idx pid = 255 then (s, -ESRCH)
  else
    let (s, err) := s.unlinkTask pid RESERVED
    let (s, err) := if err = 0 then s.linkTask pid whoami memory else (s, err)
    if err = 0 ∧ (s.tab (idx pid)).task = RESERVED then
      (s.setSlot (idx pid) { s.tab (idx pid) with task := whoami }, err)
    else (s, -ESRCH)

def pid2rttask (pid : Pid) (s : Tables) : TaskPtr :=
  if idx pid = 0 ∨ idx pid = 255 then 0
  else if (s.tab (idx pid)).live ≠ 0 then (s.tab (idx pid)).task else 0

end Tables

/-! ## What the pids stand for -/

/-- What a pid is assigned to. -/
inductive Holder where
  | reservation
  /-- The task that was created after this many others. -/
  | task (number : Nat)
deriving DecidableEq

structure State where
  tables : Tables := {}
  /-- The number of the task that is at an address. -/
  born : TaskPtr → Option Nat := fun _ => none
  /-- How many tasks have been created. -/
  created : Nat := 0
  assigned : Pid → Option Holder := fun _ => none
  /-- The pids released, each with the number of tasks created before. -/
  released : List (Pid × Nat) := []

inductive Event where
  | create (task : TaskPtr)
  | delete (task : TaskPtr)
  | assignPid (task : TaskPtr) (memory : Bool)
  | assignVc (task : TaskPtr) (memory : Bool)
  | reserve (memory : Bool)
  | assignAliasName (pid : Pid) (name : Option String) (memory : Bool)
  | attach (pid : Pid) (whoami : TaskPtr) (memory : Bool)
  | release (pid : Pid)
  | pid2rttask (pid : Pid)
deriving DecidableEq

namespace State

/-- A pid is assigned, if there was one. -/
def assign (result : Tables × Pid) (holder : Holder) (s : State) : State :=
  { s with
    tables := result.1
    assigned := if result.2 = 0 then s.assigned else update s.assigned result.2 (some holder) }

def attach (pid : Pid) (result : Tables × Int) (number : Nat) (s : State) : State :=
  { s with
    tables := result.1
    assigned :=
      if result.2 = 0 then update s.assigned pid (some (.task number)) else s.assigned }

def release (pid : Pid) (s : State) : State :=
  { s with
    tables := (s.tables.rtVcRelease pid).1
    assigned := update s.assigned pid none
    released := if s.assigned pid = none then s.released else (pid, s.created) :: s.released }

end State

/-- A task that is created has memory of its own, and a task that calls or is named to a
service exists. -/
def step : Event → State → Option State
  | .create task, s =>
      if task ≠ 0 ∧ task ≠ RESERVED ∧ s.born task = none then
        some { s with born := update s.born task (some s.created), created := s.created + 1 }
      else none
  | .delete task, s => (s.born task).map fun _ => { s with born := update s.born task none }
  | .assignPid task memory, s =>
      (s.born task).map fun number => s.assign (s.tables.assignPid task memory) (.task number)
  | .assignVc task memory, s =>
      (s.born task).map fun number => s.assign (s.tables.assignVc task memory) (.task number)
  | .reserve memory, s => some (s.assign (s.tables.rtVcReserve memory) .reservation)
  | .assignAliasName pid name memory, s =>
      some { s with tables := s.tables.assignAliasName pid name memory }
  | .attach pid whoami memory, s =>
      (s.born whoami).map fun number =>
        s.attach pid (s.tables.rtVcAttach pid whoami memory) number
  | .release pid, s => some (s.release pid)
  | .pid2rttask _, s => some s

end Rtai.Lxrt.Identifiers
