import Rtai.Lib.Run
import Rtai.Lib.Slots
import Mathlib.Data.Finset.Filter

/-!
# The tables of the shared memory

`rtai_shm.c` has a list of the pairs of a name and a process that use an area, and a list of the
areas.  The functions that look a name up register the pair in passing, and say no more than
that they have not been able to.

A call is one step, since the lock is held until its last use of the tables.  It stays taken
when `rvmalloc` fails.
-/

namespace Rtai.Shmem

open Function Rtai.Lib

def MAX_SLOTS : Nat := 32

def MAX_OWNERS : Nat := 4 * MAX_SLOTS

def PAGE_SIZE : UInt32 := 4096

/-- `REAL_SIZE`, a multiple of the pages. -/
def REAL_SIZE (x : UInt32) : UInt32 := ((x - 1) &&& ~~~(PAGE_SIZE - 1)) + PAGE_SIZE

/-- The two words of a `name_pid`. -/
structure NamePid where
  NAME : UInt32
  PID : UInt32
deriving DecidableEq

/-- The value 0 of an empty cell. -/
def NamePid.zero : NamePid := ⟨0, 0⟩

/-- A cell of `vmarea`. -/
inductive VmArea where
  | null
  /-- `pid | 0xF0000000`, which is no address. -/
  | mappable (pid : UInt32)
  | vma (address : Nat)
deriving DecidableEq

/-- A cell of `shm_list`; `area` is the number of the allocation that `adr` is from. -/
structure Slot where
  adr : UInt32 := 0
  name : UInt32 := 0
  size : UInt32 := 0
  count : Nat := 0
  area : Nat := 0
deriving DecidableEq

/-- The tables.  `allocated` counts what `rvmalloc` has returned, and `freed` has what has been
given to `rvfree`, the last in front.  `locked` says that a call has returned with `shm_lock`. -/
structure State where
  namePidList : Nat → NamePid := fun _ => .zero
  vmarea : Nat → VmArea := fun _ => .null
  shmList : Nat → Slot := fun _ => {}
  allocated : Nat := 0
  freed : List Nat := []
  locked : Bool := false

/-- The loops over a table, from 1 to its last cell. -/
def first (n : Nat) (here : Nat → Bool) : Option Nat := (List.range' 1 n).find? here

namespace State

def setOwner (owner : Nat) (x : NamePid) (area : VmArea) (s : State) : State :=
  { s with namePidList := update s.namePidList owner x, vmarea := update s.vmarea owner area }

def registr (x : NamePid) (s : State) : Option Nat × State :=
  match first MAX_OWNERS fun owner => s.namePidList owner = .zero with
  | some owner => (some owner, s.setOwner owner x (.mappable x.PID))
  | none => (none, s)

def deregistr (x : NamePid) (s : State) : Option Nat × State :=
  match first MAX_OWNERS fun owner => s.namePidList owner = x with
  | some owner => (some owner, s.setOwner owner .zero .null)
  | none => (none, s)

def thereIsNotAndReg (x : NamePid) (s : State) : Option Nat × State :=
  match first MAX_OWNERS fun owner => s.namePidList owner = x with
  | some _ => (none, s)
  | none => s.registr x

def findName (name : UInt32) (s : State) : Option Nat :=
  first MAX_SLOTS fun slot => (s.shmList slot).name = name

/-- A slot, if the second function says so. -/
def slotIf (slot : Option Nat) (done : Option Nat × State) (s : State) : Option Nat × State :=
  match slot with
  | some slot => (done.1.map fun _ => slot, done.2)
  | none => (none, s)

def findNameAndReg (name pid : UInt32) (s : State) : Option Nat × State :=
  s.slotIf (s.findName name) (s.thereIsNotAndReg ⟨name, pid⟩)

def findFreeSlotAndReg (name pid : UInt32) (s : State) : Option Nat × State :=
  s.slotIf (s.findName 0) (s.thereIsNotAndReg ⟨name, pid⟩)

def findNameAndDrg (name pid : UInt32) (s : State) : Option Nat × State :=
  s.slotIf (s.findName name) (s.deregistr ⟨name, pid⟩)

def setSlot (slot : Nat) (x : Slot) (s : State) : State :=
  { s with shmList := update s.shmList slot x }

/-- `adr` is what `rvmalloc` returns, or would return. -/
def rtaiKmallocF (name : UInt32) (size : Int32) (pid adr : UInt32) (s : State) : UInt32 × State :=
  if size ≤ 0 then (0, s)
  else
    match s.findNameAndReg name pid with
    | (some slot, s) =>
        let x := s.shmList slot
        (x.adr, s.setSlot slot { x with count := x.count + 1 })
    | (none, s) =>
        let size := REAL_SIZE size.toUInt32
        if adr ≠ 0 then
          let area := s.allocated
          let s := { s with allocated := area + 1 }
          match s.findFreeSlotAndReg name pid with
          | (some slot, s) =>
              (adr, s.setSlot slot { adr := adr, name := name, size := size, count := 1, area := area })
          | (none, s) => (0, { s with freed := area :: s.freed })
        else (0, { s with locked := true })

def rtaiKfreeF (name pid : UInt32) (s : State) : State :=
  match s.findNameAndDrg name pid with
  | (some slot, s) =>
      let x := s.shmList slot
      if x.count - 1 = 0 then
        { s.setSlot slot (s.shmList 0) with freed := x.area :: s.freed }
      else s.setSlot slot { x with count := x.count - 1 }
  | (none, s) => s

end State

namespace State

variable {s : State} {slot j owner : Nat} {y : Slot} {x : NamePid} {area : VmArea}

@[simp] theorem setSlot_self : (s.setSlot slot y).shmList slot = y := update_self _ _ _

theorem setSlot_of_ne (other : j ≠ slot) : (s.setSlot slot y).shmList j = s.shmList j :=
  update_of_ne other _ _

@[simp] theorem setOwner_shmList : (s.setOwner owner x area).shmList = s.shmList := rfl

end State

/-! ## Searches -/

variable {n k : Nat} {here : Nat → Bool}

theorem first_some (found : first n here = some k) :
    0 < k ∧ k ≤ n ∧ here k = true ∧ ∀ j, 0 < j → j < k → here j = false := by
  obtain ⟨yes, range, before⟩ := List.find?_range'_eq_some.mp found
  obtain ⟨low, high⟩ := List.mem_range'_1.mp range
  exact ⟨low, by omega, yes, fun j pos less => by simpa using before j pos less⟩

theorem first_none : first n here = none ↔ ∀ k, 0 < k → k ≤ n → here k = false := by
  unfold first
  rw [List.find?_range'_eq_none]
  exact ⟨fun no k pos le => by simpa using no k pos (by omega),
    fun no k pos less => by simpa using no k pos (by omega)⟩

/-! ## Cases -/

namespace State

/-- Where a pair can be registered. -/
def regOwner (x : NamePid) (s : State) : Option Nat :=
  match first MAX_OWNERS fun owner => s.namePidList owner = x with
  | some _ => none
  | none => first MAX_OWNERS fun owner => s.namePidList owner = .zero

theorem thereIsNotAndReg_eq (x : NamePid) (s : State) : s.thereIsNotAndReg x =
    match s.regOwner x with
    | some owner => (some owner, s.setOwner owner x (.mappable x.PID))
    | none => (none, s) := by
  unfold thereIsNotAndReg regOwner registr
  cases first MAX_OWNERS fun owner => s.namePidList owner = x with
  | some => rfl
  | none => rfl

/-- A pair is added to the owners of an area, or to those of a new one, or nothing is kept. -/
theorem rtaiKmallocF_cases (name : UInt32) (size : Int32) (pid adr : UInt32) (s : State) :
    (∃ locked, s.rtaiKmallocF name size pid adr = (0, { s with locked })) ∨
    s.rtaiKmallocF name size pid adr =
      (0, { s with allocated := s.allocated + 1, freed := s.allocated :: s.freed }) ∨
    (∃ slot owner, s.findName name = some slot ∧ s.regOwner ⟨name, pid⟩ = some owner ∧
      s.rtaiKmallocF name size pid adr = ((s.shmList slot).adr,
        (s.setOwner owner ⟨name, pid⟩ (.mappable pid)).setSlot slot
          { s.shmList slot with count := (s.shmList slot).count + 1 })) ∨
    ∃ slot owner, s.findName name = none ∧ s.findName 0 = some slot ∧
      s.regOwner ⟨name, pid⟩ = some owner ∧ adr ≠ 0 ∧
      s.rtaiKmallocF name size pid adr = (adr,
        (State.setOwner owner ⟨name, pid⟩ (.mappable pid) { s with
          allocated := s.allocated + 1 }).setSlot slot
            { adr := adr, name := name, size := REAL_SIZE size.toUInt32, count := 1,
              area := s.allocated }) := by
  unfold rtaiKmallocF findNameAndReg findFreeSlotAndReg
  by_cases small : size ≤ 0
  · rw [if_pos small]
    exact .inl ⟨s.locked, rfl⟩
  rw [if_neg small, thereIsNotAndReg_eq]
  cases reg : s.regOwner ⟨name, pid⟩ with
  | none =>
      have refused (s' : State) (same : s'.namePidList = s.namePidList) (slot : Option Nat) :
          s'.slotIf slot (s'.thereIsNotAndReg ⟨name, pid⟩) = (none, s') := by
        have : s'.regOwner ⟨name, pid⟩ = none := by rw [← reg, regOwner, same, regOwner]
        rw [thereIsNotAndReg_eq, this]
        cases slot <;> rfl
      have first : s.slotIf (s.findName name) (none, s) = (none, s) := by
        cases s.findName name <;> rfl
      simp only [first]
      by_cases none : adr = 0
      · exact .inl ⟨true, by simp [none]⟩
      · refine .inr (.inl ?_)
        have second := refused { s with allocated := s.allocated + 1 } rfl (s.findName 0)
        have same : State.findName 0 { s with allocated := s.allocated + 1 } = s.findName 0 := rfl
        rw [if_pos none, same, second]
  | some owner =>
      cases found : s.findName name with
      | some slot => exact .inr (.inr (.inl ⟨slot, owner, rfl, rfl, rfl⟩))
      | none =>
          by_cases none : adr = 0
          · exact .inl ⟨true, by simp [slotIf, none]⟩
          · have registered : State.thereIsNotAndReg ⟨name, pid⟩ { s with
                allocated := s.allocated + 1 } = (some owner, State.setOwner owner ⟨name, pid⟩
                  (.mappable pid) { s with allocated := s.allocated + 1 }) := by
              have : State.regOwner ⟨name, pid⟩ { s with allocated := s.allocated + 1 } =
                some owner := reg
              rw [thereIsNotAndReg_eq, this]
            have same : State.findName 0 { s with allocated := s.allocated + 1 } = s.findName 0 := rfl
            simp only [slotIf, if_pos none, registered, same]
            cases s.findName 0 with
            | some slot => exact .inr (.inr (.inr ⟨slot, owner, trivial, rfl, rfl, none, rfl⟩))
            | none => exact .inr (.inl rfl)

/-- A pair is taken from the owners of an area, and the area goes with the last. -/
theorem rtaiKfreeF_cases (name pid : UInt32) (s : State) :
    s.rtaiKfreeF name pid = s ∧ (s.findName name = none ∨
      first MAX_OWNERS (fun owner => s.namePidList owner = ⟨name, pid⟩) = none) ∨
    ∃ slot owner, s.findName name = some slot ∧
      first MAX_OWNERS (fun owner => s.namePidList owner = ⟨name, pid⟩) = some owner ∧
      s.rtaiKfreeF name pid =
        if (s.shmList slot).count - 1 = 0 then
          { (s.setOwner owner .zero .null).setSlot slot (s.shmList 0) with
            freed := (s.shmList slot).area :: s.freed }
        else (s.setOwner owner .zero .null).setSlot slot
          { s.shmList slot with count := (s.shmList slot).count - 1 } := by
  unfold rtaiKfreeF findNameAndDrg deregistr
  cases s.findName name with
  | none => exact .inl ⟨rfl, .inl rfl⟩
  | some slot =>
      cases first MAX_OWNERS fun owner => s.namePidList owner = ⟨name, pid⟩ with
      | none => exact .inl ⟨rfl, .inr rfl⟩
      | some owner => exact .inr ⟨slot, owner, rfl, rfl, rfl⟩

end State

end Rtai.Shmem
