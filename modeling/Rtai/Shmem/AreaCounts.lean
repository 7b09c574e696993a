import Rtai.Shmem.Areas
import Mathlib.Data.Finset.Image
import Mathlib.Order.Interval.Finset.Nat

/-!
# The owners of the shared areas

The pairs of a name and a process that are registered make a set, each in one cell of the first
table, and their names are those in the second, each in one slot with the number of its pairs.
An area that has been allocated and not been freed is in one slot.  An `rvmalloc` that fails
leaves the lock taken, and on SMP every later call spins, that of the last owner too.
-/

namespace Rtai.Shmem

open Function Rtai.Lib

/-! ## Cells -/

section

variable {α : Type} [DecidableEq α] {n j : Nat} {x empty : α} {S : Finset α}

theorem first_cell (cell : Nat → α) (found : first n (fun k => cell k = x) = some j) :
    ∃ k < n, j = k + 1 ∧ cell (k + 1) = x := by
  obtain ⟨pos, le, here, -⟩ := first_some found
  obtain ⟨k, rfl⟩ : ∃ k, j = k + 1 := ⟨j - 1, by omega⟩
  exact ⟨k, le, rfl, of_decide_eq_true here⟩

theorem first_cell_none (cell : Nat → α) (cells : Slots n empty (fun k => cell (k + 1)) S)
    (ne : x ≠ empty) : first n (fun k => cell k = x) = none ↔ x ∉ S := by
  rw [first_none, cells.mem]
  refine ⟨fun no => ?_, fun no k pos le => ?_⟩
  · rintro ⟨-, k, less, here⟩
    exact absurd here (of_decide_eq_false (no (k + 1) k.succ_pos less))
  · obtain ⟨k, rfl⟩ : ∃ j, k = j + 1 := ⟨k - 1, by omega⟩
    exact decide_eq_false fun here => no ⟨ne, k, le, here⟩

omit [DecidableEq α] in
theorem update_cell (cell : Nat → α) (k : Nat) (x : α) :
    (fun i => update cell (k + 1) x (i + 1)) = update (fun i => cell (i + 1)) k x := by
  funext i
  rcases eq_or_ne i k with rfl | other
  · rw [update_self, update_self]
  · rw [update_of_ne (by omega), update_of_ne other]

end

/-- The pairs with a name. -/
def users (S : Finset NamePid) (name : UInt32) : Finset NamePid := S.filter (·.NAME = name)

variable {S : Finset NamePid} {x : NamePid} {name : UInt32}

theorem users_insert (new : x ∉ S) :
    (users (insert x S) name).card = (users S name).card + if x.NAME = name then 1 else 0 := by
  unfold users
  rw [Finset.filter_insert]
  split_ifs
  · exact Finset.card_insert_of_notMem fun mem => new (Finset.mem_of_mem_filter x mem)
  · rfl

theorem users_erase (name : UInt32) (mem : x ∈ S) :
    (users S name).card = (users (S.erase x) name).card + if x.NAME = name then 1 else 0 := by
  conv_lhs => rw [← Finset.insert_erase mem]
  exact users_insert (Finset.notMem_erase x S)

theorem users_pos : 0 < (users S name).card ↔ name ∈ S.image NamePid.NAME := by
  rw [Finset.card_pos, Finset.mem_image]
  exact ⟨fun ⟨x, mem⟩ => ⟨x, Finset.mem_filter.mp mem⟩, fun ⟨x, mem⟩ => ⟨x, Finset.mem_filter.mpr mem⟩⟩

theorem pair_ne_zero (named : name ≠ 0) (pid : UInt32) : (⟨name, pid⟩ : NamePid) ≠ .zero :=
  fun zero => named (congrArg NamePid.NAME zero)

/-! ## The invariant -/

namespace State

/-- An area that has not been given to `rvfree`. -/
def Live (s : State) (a : Nat) : Prop := a < s.allocated ∧ a ∉ s.freed

def Used (s : State) (k : Nat) : Prop := (s.shmList k).name ≠ 0

/-- `S` is the set of the registered pairs. -/
structure Kept (s : State) (S : Finset NamePid) : Prop where
  owners : Slots MAX_OWNERS .zero (fun k => s.namePidList (k + 1)) S
  slots : Slots MAX_SLOTS 0 (fun k => (s.shmList (k + 1)).name) (S.image NamePid.NAME)
  count : ∀ k < MAX_SLOTS, s.Used (k + 1) →
    (s.shmList (k + 1)).count = (users S (s.shmList (k + 1)).name).card
  adr : ∀ k < MAX_SLOTS, s.Used (k + 1) → (s.shmList (k + 1)).adr ≠ 0
  zero : s.shmList 0 = {}
  live : ∀ a, s.Live a ↔ ∃ k < MAX_SLOTS, s.Used (k + 1) ∧ (s.shmList (k + 1)).area = a
  distinct : ∀ k < MAX_SLOTS, ∀ k' < MAX_SLOTS, s.Used (k + 1) → s.Used (k' + 1) →
    (s.shmList (k + 1)).area = (s.shmList (k' + 1)).area → k = k'
  nodup : s.freed.Nodup
  freed : ∀ a ∈ s.freed, a < s.allocated

variable {s : State} {pid adr : UInt32} {slot owner : Nat}

theorem init_kept : ({} : State).Kept ∅ where
  owners := Slots.clean fun _ _ => rfl
  slots := Slots.clean fun _ _ => rfl
  count := fun _ _ used => absurd rfl used
  adr := fun _ _ used => absurd rfl used
  zero := rfl
  live := fun a => ⟨fun ⟨lt, _⟩ => absurd lt (Nat.not_lt_zero a), fun ⟨_, _, used, _⟩ => absurd rfl used⟩
  distinct := fun _ _ _ _ used => absurd rfl used
  nodup := List.nodup_nil
  freed := fun _ mem => absurd mem List.not_mem_nil

namespace Kept

theorem regOwner_some (kept : s.Kept S) (ne : x ≠ .zero) (found : s.regOwner x = some owner) :
    x ∉ S ∧ ∃ k < MAX_OWNERS, owner = k + 1 ∧ s.namePidList (k + 1) = .zero := by
  unfold regOwner at found
  split at found
  next => cases found
  next none => exact ⟨(first_cell_none _ kept.owners ne).mp none, first_cell _ found⟩

/-- A new pair. -/
theorem setOwner (kept : s.Kept S) (ne : x ≠ .zero) (found : s.regOwner x = some owner)
    (area : VmArea) :
    Slots MAX_OWNERS .zero (fun k => (s.setOwner owner x area).namePidList (k + 1)) (insert x S) := by
  obtain ⟨new, k, less, rfl, free⟩ := kept.regOwner_some ne found
  simp only [State.setOwner]
  rw [update_cell]
  exact kept.owners.put less free ne new

/-- Other owners of the same areas. -/
theorem recount {s' : State} {S' : Finset NamePid} (kept : s.Kept S)
    (owners : Slots MAX_OWNERS .zero (fun k => s'.namePidList (k + 1)) S')
    (cells : ∀ j, ∃ c, s'.shmList j = { s.shmList j with count := c })
    (zero : s'.shmList 0 = s.shmList 0) (names : S'.image NamePid.NAME = S.image NamePid.NAME)
    (count : ∀ k < MAX_SLOTS, s.Used (k + 1) →
      (s'.shmList (k + 1)).count = (users S' (s.shmList (k + 1)).name).card)
    (allocated : s'.allocated = s.allocated) (freed : s'.freed = s.freed) : s'.Kept S' := by
  have name (j : Nat) : (s'.shmList j).name = (s.shmList j).name := by
    obtain ⟨c, same⟩ := cells j
    rw [same]
  have adr (j : Nat) : (s'.shmList j).adr = (s.shmList j).adr := by
    obtain ⟨c, same⟩ := cells j
    rw [same]
  have area (j : Nat) : (s'.shmList j).area = (s.shmList j).area := by
    obtain ⟨c, same⟩ := cells j
    rw [same]
  refine ⟨owners, ?_, ?_, ?_, zero.trans kept.zero, ?_, ?_, ?_, ?_⟩
  · simp only [name, names]
    exact kept.slots
  · simp only [Used, name]
    exact count
  · simp only [Used, name, adr]
    exact kept.adr
  · simp only [Live, Used, name, area, allocated, freed]
    exact kept.live
  · simp only [Used, name, area]
    exact kept.distinct
  · rw [freed]
    exact kept.nodup
  · rw [freed, allocated]
    exact kept.freed

/-- The slot of a name. -/
theorem findName_some (kept : s.Kept S) (named : name ≠ 0) (found : s.findName name = some slot) :
    ∃ k < MAX_SLOTS, slot = k + 1 ∧ (s.shmList (k + 1)).name = name ∧
      name ∈ S.image NamePid.NAME ∧
      ∀ j < MAX_SLOTS, (s.shmList (j + 1)).name = name → j = k := by
  obtain ⟨k, less, rfl, here⟩ := first_cell (fun k => (s.shmList k).name) found
  have used : (s.shmList (k + 1)).name ≠ 0 := here ▸ named
  refine ⟨k, less, rfl, here, ?_, fun j less' here' => ?_⟩
  · rw [← here]
    exact kept.slots.cell_mem less used
  · exact (kept.slots.once less less' (here.trans here'.symm) used).symm

/-- A pair is added to those of an area. -/
theorem existing (kept : s.Kept S) (named : name ≠ 0) (found : s.findName name = some slot)
    (registered : s.regOwner ⟨name, pid⟩ = some owner) :
    ((s.setOwner owner ⟨name, pid⟩ (.mappable pid)).setSlot slot
      { s.shmList slot with count := (s.shmList slot).count + 1 }).Kept (insert ⟨name, pid⟩ S) := by
  have ne := pair_ne_zero named pid
  have new := (kept.regOwner_some ne registered).1
  obtain ⟨k, less, rfl, here, mem, only⟩ := kept.findName_some named found
  refine kept.recount (kept.setOwner ne registered (.mappable pid)) (fun j => ?_) ?_ ?_
    (fun j less' used => ?_) rfl rfl
  · rcases eq_or_ne j (k + 1) with rfl | other
    · exact ⟨_, setSlot_self⟩
    · exact ⟨_, setSlot_of_ne other⟩
  · exact setSlot_of_ne (Nat.succ_ne_zero k).symm
  · rw [Finset.image_insert, Finset.insert_eq_self]
    exact mem
  · rw [users_insert new]
    rcases eq_or_ne j k with rfl | other
    · rw [← kept.count j less used, if_pos here.symm, setSlot_self]
    · rw [if_neg fun same => other (only j less' same.symm), ← kept.count j less' used,
        setSlot_of_ne (by omega)]
      rfl

/-- An area for a new name. -/
theorem fresh (kept : s.Kept S) (named : name ≠ 0) (memory : adr ≠ 0) (size : UInt32)
    (missing : s.findName name = none) (found : s.findName 0 = some slot)
    (registered : s.regOwner ⟨name, pid⟩ = some owner) :
    ((State.setOwner owner ⟨name, pid⟩ (.mappable pid) { s with
      allocated := s.allocated + 1 }).setSlot slot
        { adr := adr, name := name, size := size, count := 1, area := s.allocated }).Kept
      (insert ⟨name, pid⟩ S) := by
  have ne := pair_ne_zero named pid
  have new := (kept.regOwner_some ne registered).1
  have unnamed := (first_cell_none (fun k => (s.shmList k).name) kept.slots named).mp missing
  obtain ⟨k, less, rfl, free⟩ := first_cell (fun k => (s.shmList k).name) found
  have owners := kept.setOwner ne registered (.mappable pid)
  generalize new' : State.setSlot (k + 1) _ _ = s'
  have here : s'.shmList (k + 1) =
      { adr := adr, name := name, size := size, count := 1, area := s.allocated } := by
    rw [← new', setSlot_self]
  have others {j : Nat} (other : j ≠ k + 1) : s'.shmList j = s.shmList j := by
    rw [← new', setSlot_of_ne other]
    rfl
  have allocated : s'.allocated = s.allocated + 1 := by rw [← new']; rfl
  have freed : s'.freed = s.freed := by rw [← new']; rfl
  have names : (fun j => (s'.shmList (j + 1)).name) =
      update (fun j => (s.shmList (j + 1)).name) k name := by
    funext j
    rcases eq_or_ne j k with rfl | other
    · rw [here, update_self]
    · rw [others (by omega), update_of_ne other]
  have cases {j : Nat} (used : s'.Used (j + 1)) : j = k ∨ j ≠ k ∧ s.Used (j + 1) := by
    rcases eq_or_ne j k with same | other
    · exact .inl same
    · rw [Used, others (by omega)] at used
      exact .inr ⟨other, used⟩
  refine ⟨?_, ?_, ?_, ?_, ?_, ?_, ?_, ?_, ?_⟩
  · rw [← new']
    exact owners
  · rw [names, Finset.image_insert]
    exact kept.slots.put less free named unnamed
  · intro j less' used
    rw [users_insert new]
    rcases cases used with rfl | ⟨other, old⟩
    · have none : (users S name).card = 0 := by
        have := mt users_pos.mp unnamed
        omega
      rw [here, none, if_pos rfl]
    · have differs : name ≠ (s.shmList (j + 1)).name := fun same =>
        unnamed (same ▸ kept.slots.cell_mem less' old)
      rw [others (by omega), if_neg differs]
      exact kept.count j less' old
  · intro j less' used
    rcases cases used with rfl | ⟨other, old⟩
    · rw [here]
      exact memory
    · rw [others (by omega)]
      exact kept.adr j less' old
  · rw [others (Nat.succ_ne_zero k).symm]
    exact kept.zero
  · have unfreed : s.allocated ∉ s.freed := fun mem => absurd (kept.freed _ mem) (Nat.lt_irrefl _)
    have grows (a : Nat) : s'.Live a ↔ s.Live a ∨ a = s.allocated := by
      simp only [Live, allocated, freed, Nat.lt_succ_iff_lt_or_eq]
      constructor
      · rintro ⟨lt | same, out⟩
        · exact .inl ⟨lt, out⟩
        · exact .inr same
      · rintro (⟨lt, out⟩ | rfl)
        · exact ⟨.inl lt, out⟩
        · exact ⟨.inr rfl, unfreed⟩
    intro a
    rw [grows, kept.live]
    constructor
    · rintro (⟨j, less', used, rfl⟩ | rfl)
      · have other : j ≠ k := by
          rintro rfl
          exact used free
        refine ⟨j, less', ?_, ?_⟩
        · rwa [Used, others (by omega)]
        · rw [others (by omega)]
      · exact ⟨k, less, by rwa [Used, here], by rw [here]⟩
    · rintro ⟨j, less', used, rfl⟩
      rcases cases used with rfl | ⟨other, old⟩
      · exact .inr (by rw [here])
      · exact .inl ⟨j, less', old, by rw [others (by omega)]⟩
  · have below {j : Nat} (less' : j < MAX_SLOTS) (old : s.Used (j + 1)) :
        (s.shmList (j + 1)).area < s.allocated := ((kept.live _).mpr ⟨j, less', old, rfl⟩).1
    intro j less' j' less'' used used' same
    rcases cases used with rfl | ⟨other, old⟩ <;> rcases cases used' with rfl | ⟨other', old'⟩
    · rfl
    · rw [here, others (by omega)] at same
      exact absurd same.symm (below less'' old').ne
    · rw [here, others (by omega)] at same
      exact absurd same (below less' old).ne
    · rw [others (by omega), others (by omega)] at same
      exact kept.distinct j less' j' less'' old old' same
  · rw [freed]
    exact kept.nodup
  · intro a mem
    rw [freed] at mem
    have := kept.freed a mem
    omega

theorem dropped_live (a : Nat) :
    State.Live { s with allocated := s.allocated + 1, freed := s.allocated :: s.freed } a ↔
      s.Live a := by
  simp only [Live, List.mem_cons, not_or]
  exact ⟨fun ⟨lt, ne, out⟩ => ⟨by omega, out⟩, fun ⟨lt, out⟩ => ⟨by omega, by omega, out⟩⟩

/-- Memory that is given back at once. -/
theorem dropped (kept : s.Kept S) :
    State.Kept { s with allocated := s.allocated + 1, freed := s.allocated :: s.freed } S := by
  refine ⟨kept.owners, kept.slots, kept.count, kept.adr, kept.zero,
    fun a => (dropped_live a).trans (kept.live a), kept.distinct, ?_, fun a mem => ?_⟩
  · exact List.nodup_cons.mpr ⟨fun mem => absurd (kept.freed _ mem) (Nat.lt_irrefl _), kept.nodup⟩
  · show a < s.allocated + 1
    rcases List.mem_cons.mp mem with rfl | mem
    · exact Nat.lt_succ_self _
    · exact (kept.freed a mem).trans (Nat.lt_succ_self _)

theorem unlocked (kept : s.Kept S) (locked : Bool) : State.Kept { s with locked } S :=
  ⟨kept.owners, kept.slots, kept.count, kept.adr, kept.zero, kept.live, kept.distinct, kept.nodup,
    kept.freed⟩

/-- The cell of a pair is emptied. -/
theorem clearOwner (kept : s.Kept S) (ne : x ≠ .zero)
    (found : first MAX_OWNERS (fun owner => s.namePidList owner = x) = some owner) :
    x ∈ S ∧ Slots MAX_OWNERS .zero (fun k => (s.setOwner owner .zero .null).namePidList (k + 1))
      (S.erase x) := by
  obtain ⟨k, less, rfl, rfl⟩ := first_cell _ found
  refine ⟨kept.owners.cell_mem less ne, ?_⟩
  simp only [State.setOwner]
  rw [update_cell]
  exact kept.owners.clear less ne

variable (kept : s.Kept S) (named : name ≠ 0) (found : s.findName name = some slot)
  (registered : first MAX_OWNERS (fun owner => s.namePidList owner = ⟨name, pid⟩) = some owner)
include kept named found registered

/-- A pair that is not the last of its name. -/
theorem released (more : (s.shmList slot).count - 1 ≠ 0) :
    ((s.setOwner owner .zero .null).setSlot slot
      { s.shmList slot with count := (s.shmList slot).count - 1 }).Kept (S.erase ⟨name, pid⟩) := by
  have ne := pair_ne_zero named pid
  obtain ⟨mem, owners⟩ := kept.clearOwner ne registered
  obtain ⟨k, less, rfl, here, -, only⟩ := kept.findName_some named found
  have counted := kept.count k less (by rw [Used, here]; exact named)
  have rest := users_erase name mem
  rw [here] at counted
  rw [if_pos rfl] at rest
  refine kept.recount owners (fun j => ?_) ?_ ?_ (fun j less' used => ?_) rfl rfl
  · rcases eq_or_ne j (k + 1) with rfl | other
    · exact ⟨_, setSlot_self⟩
    · exact ⟨_, setSlot_of_ne other⟩
  · exact setSlot_of_ne (Nat.succ_ne_zero k).symm
  · have still : name ∈ (S.erase ⟨name, pid⟩).image NamePid.NAME := users_pos.mp (by omega)
    conv_rhs => rw [← Finset.insert_erase mem, Finset.image_insert]
    exact (Finset.insert_eq_self.mpr still).symm
  · rcases eq_or_ne j k with rfl | other
    · rw [setSlot_self, here]
      show (s.shmList (j + 1)).count - 1 = _
      omega
    · have differs : name ≠ (s.shmList (j + 1)).name := fun same => other (only j less' same.symm)
      have same := users_erase (s.shmList (j + 1)).name mem
      rw [if_neg differs] at same
      rw [setSlot_of_ne (by omega), setOwner_shmList, kept.count j less' used, same]
      rfl

/-- The last pair of a name. -/
theorem last (lastOne : (s.shmList slot).count - 1 = 0) :
    State.Kept { (s.setOwner owner .zero .null).setSlot slot (s.shmList 0) with
      freed := (s.shmList slot).area :: s.freed } (S.erase ⟨name, pid⟩) := by
  have ne := pair_ne_zero named pid
  obtain ⟨mem, owners⟩ := kept.clearOwner ne registered
  obtain ⟨k, less, rfl, here, -, only⟩ := kept.findName_some named found
  have used : s.Used (k + 1) := by
    rw [Used, here]
    exact named
  have counted := kept.count k less used
  have rest := users_erase name mem
  rw [here] at counted
  rw [if_pos rfl] at rest
  have gone : name ∉ (S.erase ⟨name, pid⟩).image NamePid.NAME := fun still => by
    have := users_pos.mpr still
    omega
  have live := (kept.live _).mpr ⟨k, less, used, rfl⟩
  generalize old' : (s.shmList (k + 1)).area = area at live
  have same : (s.setOwner owner .zero .null).freed = s.freed := rfl
  generalize new' : State.setSlot (k + 1) (s.shmList 0) (s.setOwner owner .zero .null) = s' at *
  have empty : s'.shmList (k + 1) = {} := by rw [← new', setSlot_self, kept.zero]
  have others {j : Nat} (other : j ≠ k + 1) : s'.shmList j = s.shmList j := by
    rw [← new', setSlot_of_ne other]
    rfl
  have allocated : s'.allocated = s.allocated := by rw [← new']; rfl
  have cases {j : Nat} (used' : s'.Used (j + 1)) : j ≠ k ∧ s.Used (j + 1) := by
    rcases eq_or_ne j k with rfl | other
    · rw [Used, empty] at used'
      exact absurd rfl used'
    · rw [Used, others (by omega)] at used'
      exact ⟨other, used'⟩
  have names : (fun j => (s'.shmList (j + 1)).name) =
      update (fun j => (s.shmList (j + 1)).name) k 0 := by
    funext j
    rcases eq_or_ne j k with rfl | other
    · rw [empty, update_self]
    · rw [others (by omega), update_of_ne other]
  have images : (S.erase ⟨name, pid⟩).image NamePid.NAME = (S.image NamePid.NAME).erase name := by
    conv_rhs => rw [← Finset.insert_erase mem, Finset.image_insert]
    exact (Finset.erase_insert gone).symm
  refine ⟨?_, ?_, ?_, ?_, ?_, ?_, ?_, ?_, ?_⟩
  · rw [← new'] at *
    exact owners
  · show Slots _ _ (fun j => (s'.shmList (j + 1)).name) _
    rw [names, images, ← here]
    exact kept.slots.clear less used
  · intro j less' used'
    obtain ⟨other, old⟩ := cases used'
    have differs : name ≠ (s.shmList (j + 1)).name := fun same => other (only j less' same.symm)
    have unchanged := users_erase (s.shmList (j + 1)).name mem
    rw [if_neg differs] at unchanged
    show (s'.shmList (j + 1)).count = (users _ (s'.shmList (j + 1)).name).card
    rw [others (by omega), kept.count j less' old, unchanged]
    rfl
  · intro j less' used'
    obtain ⟨other, old⟩ := cases used'
    show (s'.shmList (j + 1)).adr ≠ 0
    rw [others (by omega)]
    exact kept.adr j less' old
  · show s'.shmList 0 = {}
    rw [others (Nat.succ_ne_zero k).symm]
    exact kept.zero
  · intro a
    have shrinks : State.Live { s' with freed := area :: s.freed } a ↔ s.Live a ∧ a ≠ area := by
      simp only [Live, allocated, List.mem_cons, not_or]
      tauto
    rw [shrinks, kept.live]
    constructor
    · rintro ⟨⟨j, less', old, rfl⟩, ne⟩
      have other : j ≠ k := by
        rintro rfl
        exact ne old'
      refine ⟨j, less', ?_, ?_⟩
      · show (s'.shmList (j + 1)).name ≠ 0
        rwa [others (by omega)]
      · show (s'.shmList (j + 1)).area = _
        rw [others (by omega)]
    · rintro ⟨j, less', used', rfl⟩
      obtain ⟨other, old⟩ := cases used'
      show (∃ _, _) ∧ (s'.shmList (j + 1)).area ≠ area
      rw [others (by omega)]
      exact ⟨⟨j, less', old, rfl⟩, fun same =>
        other (kept.distinct j less' k less old used (same.trans old'.symm))⟩
  · intro j less' j' less'' used' used'' same
    obtain ⟨other, old⟩ := cases used'
    obtain ⟨other', old'⟩ := cases used''
    refine kept.distinct j less' j' less'' old old' ?_
    rw [← others (by omega), ← others (by omega)]
    exact same
  · exact List.nodup_cons.mpr ⟨live.2, kept.nodup⟩
  · intro a mem
    show a < s'.allocated
    rw [allocated]
    rcases List.mem_cons.mp mem with rfl | mem
    · exact live.1
    · exact kept.freed a mem

end Kept

/-! ## Runs -/

/-- A process or a module uses a name. -/
def Registered (s : State) (x : NamePid) : Prop :=
  ∃ owner, 0 < owner ∧ owner ≤ MAX_OWNERS ∧ s.namePidList owner = x

/-- A name has an area. -/
def HasArea (s : State) (name : UInt32) (a : Nat) : Prop :=
  ∃ slot, 0 < slot ∧ slot ≤ MAX_SLOTS ∧ (s.shmList slot).name = name ∧ (s.shmList slot).area = a

/-- What is said of the tables. -/
structure Sound (s : State) : Prop where
  names : ∀ i j, 0 < i → i ≤ MAX_SLOTS → 0 < j → j ≤ MAX_SLOTS →
    (s.shmList i).name ≠ 0 → (s.shmList i).name = (s.shmList j).name → i = j
  counts : ∀ i, 0 < i → i ≤ MAX_SLOTS → (s.shmList i).name ≠ 0 → 1 ≤ (s.shmList i).count ∧
    (s.shmList i).count = ((Finset.Icc 1 MAX_OWNERS).filter fun owner =>
      (s.namePidList owner).NAME = (s.shmList i).name).card
  pairs : ∀ i j, 0 < i → i ≤ MAX_OWNERS → 0 < j → j ≤ MAX_OWNERS →
    s.namePidList i ≠ .zero → s.namePidList i = s.namePidList j → i = j
  once : s.freed.Nodup
  held : ∀ a, s.Live a ↔ ∃ name, name ≠ 0 ∧ s.HasArea name a

namespace Kept

theorem mem_iff (kept : s.Kept S) (ne : x ≠ .zero) : x ∈ S ↔ s.Registered x := by
  rw [kept.owners.mem]
  constructor
  · rintro ⟨-, k, less, here⟩
    exact ⟨k + 1, k.succ_pos, less, here⟩
  · rintro ⟨owner, pos, le, here⟩
    obtain ⟨k, rfl⟩ : ∃ k, owner = k + 1 := ⟨owner - 1, by omega⟩
    exact ⟨ne, k, le, here⟩

theorem card_users (kept : s.Kept S) (named : name ≠ 0) : (users S name).card =
    ((Finset.Icc 1 MAX_OWNERS).filter fun owner => (s.namePidList owner).NAME = name).card := by
  have image : users S name = ((Finset.Icc 1 MAX_OWNERS).filter fun owner =>
      (s.namePidList owner).NAME = name).image s.namePidList := by
    ext y
    simp only [users, Finset.mem_filter, Finset.mem_image, Finset.mem_Icc]
    constructor
    · rintro ⟨mem, rfl⟩
      obtain ⟨owner, pos, le, rfl⟩ := (kept.mem_iff fun zero => named (congrArg _ zero)).mp mem
      exact ⟨owner, ⟨⟨pos, le⟩, rfl⟩, rfl⟩
    · rintro ⟨owner, ⟨⟨pos, le⟩, rfl⟩, rfl⟩
      exact ⟨(kept.mem_iff fun zero => named (congrArg _ zero)).mpr ⟨owner, pos, le, rfl⟩, rfl⟩
  rw [image, Finset.card_image_of_injOn]
  intro i hi j hj same
  simp only [Finset.coe_filter, Set.mem_ofPred_eq, Finset.mem_Icc] at hi hj
  obtain ⟨k, rfl⟩ : ∃ k, i = k + 1 := ⟨i - 1, by omega⟩
  obtain ⟨l, rfl⟩ : ∃ l, j = l + 1 := ⟨j - 1, by omega⟩
  have := kept.owners.once (by omega) (by omega) same fun zero => by
    rw [zero] at hi
    exact named hi.2.symm
  omega

theorem sound (kept : s.Kept S) : s.Sound where
  names := by
    intro i j hi hi' hj hj' used same
    obtain ⟨k, rfl⟩ : ∃ k, i = k + 1 := ⟨i - 1, by omega⟩
    obtain ⟨l, rfl⟩ : ∃ l, j = l + 1 := ⟨j - 1, by omega⟩
    rw [kept.slots.once (by omega) (by omega) same used]
  counts := by
    intro i hi hi' used
    obtain ⟨k, rfl⟩ : ∃ k, i = k + 1 := ⟨i - 1, by omega⟩
    rw [kept.count k hi' used]
    exact ⟨users_pos.mpr (kept.slots.cell_mem hi' used), kept.card_users used⟩
  pairs := by
    intro i j hi hi' hj hj' used same
    obtain ⟨k, rfl⟩ : ∃ k, i = k + 1 := ⟨i - 1, by omega⟩
    obtain ⟨l, rfl⟩ : ∃ l, j = l + 1 := ⟨j - 1, by omega⟩
    rw [kept.owners.once (by omega) (by omega) same used]
  once := kept.nodup
  held := by
    intro a
    rw [kept.live]
    constructor
    · rintro ⟨k, less, used, here⟩
      exact ⟨_, used, k + 1, k.succ_pos, less, rfl, here⟩
    · rintro ⟨name, named, slot, pos, le, rfl, here⟩
      obtain ⟨k, rfl⟩ : ∃ k, slot = k + 1 := ⟨slot - 1, by omega⟩
      exact ⟨k, le, named, here⟩

end Kept

end State

inductive Event where
  /-- `rtai_kmalloc_f`, where `rvmalloc` returns `adr` if it is called. -/
  | kmalloc (name : UInt32) (size : Int32) (pid adr : UInt32)
  | kfree (name pid : UInt32)

/-- `spin_lock_irqsave(&shm_lock, flags)` comes to an end. -/
def State.Enters (smp : Bool) (s : State) : Prop := smp = true → s.locked = false

instance (smp : Bool) (s : State) : Decidable (s.Enters smp) := inferInstanceAs (Decidable (_ → _))

/-- What a call does that finds the lock free. -/
def State.call (s : State) : Event → State
  | .kmalloc name size pid adr => (s.rtaiKmallocF name size pid adr).2
  | .kfree name pid => s.rtaiKfreeF name pid

/-- On SMP a call that finds the lock taken spins for ever. -/
def step (smp : Bool) (e : Event) (s : State) : Option State :=
  if s.Enters smp then some (s.call e) else some s

/-- Names and processes are not 0, and sizes are positive. -/
def Named (_ : State) : Event → Prop
  | .kmalloc name size pid _ => name ≠ 0 ∧ pid ≠ 0 ∧ 0 < size
  | .kfree name pid => name ≠ 0 ∧ pid ≠ 0

instance (s : State) : ∀ e, Decidable (Named s e)
  | .kmalloc .. => inferInstanceAs (Decidable (_ ∧ _ ∧ _))
  | .kfree .. => inferInstanceAs (Decidable (_ ∧ _))

/-- On SMP no `rvmalloc` has failed. -/
def Open (smp : Bool) (s : State) (e : Event) : Prop := Named s e ∧ s.Enters smp

instance (smp : Bool) (s : State) (e : Event) : Decidable (Open smp s e) :=
  inferInstanceAs (Decidable (_ ∧ _))

/-- What is said of a call: one that returns 0 leaves the tables and the memory as they are, and
an area is freed by its last owner. -/
structure Fair (r : Record State Event) : Prop where
  failed : ∀ name size pid adr, r.event = .kmalloc name size pid adr →
    (r.pre.rtaiKmallocF name size pid adr).1 = 0 →
      r.post.namePidList = r.pre.namePidList ∧ r.post.vmarea = r.pre.vmarea ∧
        r.post.shmList = r.pre.shmList ∧ ∀ a, r.post.Live a ↔ r.pre.Live a
  freed : ∀ a, r.pre.Live a → (¬r.post.Live a ↔ ∃ name pid, r.event = .kfree name pid ∧
    r.pre.HasArea name a ∧ r.pre.Registered ⟨name, pid⟩ ∧
      ∀ pid', r.pre.Registered ⟨name, pid'⟩ → pid' = pid)

namespace State.Kept

variable {S : Finset NamePid} {s : State} {x : NamePid} {name pid adr : UInt32} {size : Int32}
variable (kept : s.Kept S) (named : name ≠ 0)
include kept named

theorem kmalloc :
    (∃ S', (s.rtaiKmallocF name size pid adr).2.Kept S') ∧
      Fair ⟨s, .kmalloc name size pid adr, (s.rtaiKmallocF name size pid adr).2⟩ := by
  have fair {s' : State} (live : ∀ a, s.Live a → s'.Live a)
      (failed : (s.rtaiKmallocF name size pid adr).1 = 0 →
        s'.namePidList = s.namePidList ∧ s'.vmarea = s.vmarea ∧ s'.shmList = s.shmList ∧
          ∀ a, s'.Live a ↔ s.Live a) :
      Fair ⟨s, .kmalloc name size pid adr, s'⟩ := by
    refine ⟨fun _ _ _ _ same zero => ?_, fun a here => iff_of_false (not_not.mpr (live a here)) ?_⟩
    · cases same
      exact failed zero
    · rintro ⟨_, _, same, -⟩
      cases same
  rcases s.rtaiKmallocF_cases name size pid adr with ⟨locked, eq⟩ | eq |
    ⟨slot, owner, found, registered, eq⟩ | ⟨slot, owner, missing, found, registered, memory, eq⟩
  · rw [eq]
    exact ⟨⟨S, kept.unlocked locked⟩, fair (fun _ => id) fun _ => ⟨rfl, rfl, rfl, fun _ => Iff.rfl⟩⟩
  · rw [eq]
    exact ⟨⟨S, kept.dropped⟩, fair (fun a => (dropped_live a).mpr) fun _ => ⟨rfl, rfl, rfl, dropped_live⟩⟩
  · rw [eq]
    refine ⟨⟨_, kept.existing named found registered⟩, fair (fun _ => id) fun zero => ?_⟩
    obtain ⟨k, less, rfl, here, -⟩ := kept.findName_some named found
    rw [eq] at zero
    exact absurd zero (kept.adr k less (by rw [Used, here]; exact named))
  · rw [eq]
    refine ⟨⟨_, kept.fresh named memory _ missing found registered⟩,
      fair (fun a live => ⟨live.1.trans (Nat.lt_succ_self _), live.2⟩) fun zero => ?_⟩
    rw [eq] at zero
    exact absurd zero memory

/-- A pair is the only one of its name when there is one of the name. -/
theorem only_iff (mem : ⟨name, pid⟩ ∈ S) :
    (users S name).card = 1 ↔ ∀ pid', s.Registered ⟨name, pid'⟩ → pid' = pid := by
  have here : (⟨name, pid⟩ : NamePid) ∈ users S name := Finset.mem_filter.mpr ⟨mem, rfl⟩
  have iff (pid' : UInt32) : (⟨name, pid'⟩ : NamePid) ∈ S ↔ s.Registered ⟨name, pid'⟩ :=
    kept.mem_iff (pair_ne_zero named pid')
  constructor
  · intro one pid' registered
    obtain ⟨y, only⟩ := Finset.card_eq_one.mp one
    have other : (⟨name, pid'⟩ : NamePid) ∈ users S name :=
      Finset.mem_filter.mpr ⟨(iff pid').mpr registered, rfl⟩
    rw [only, Finset.mem_singleton] at here other
    exact congrArg NamePid.PID (other.trans here.symm)
  · intro only
    refine Finset.card_eq_one.mpr ⟨⟨name, pid⟩, Finset.eq_singleton_iff_unique_mem.mpr ⟨here, ?_⟩⟩
    rintro ⟨name', pid'⟩ mem'
    obtain ⟨registered, rfl⟩ := Finset.mem_filter.mp mem'
    rw [only pid' ((iff pid').mp registered)]

theorem kfree :
    (∃ S', (s.rtaiKfreeF name pid).Kept S') ∧ Fair ⟨s, .kfree name pid, s.rtaiKfreeF name pid⟩ := by
  have ne := pair_ne_zero named pid
  have fair {s' : State} (freed : ∀ a, s.Live a → (¬s'.Live a ↔ s.HasArea name a ∧
      s.Registered ⟨name, pid⟩ ∧ ∀ pid', s.Registered ⟨name, pid'⟩ → pid' = pid)) :
      Fair ⟨s, .kfree name pid, s'⟩ := by
    refine ⟨fun _ _ _ _ same => (nomatch same), fun a here => (freed a here).trans ?_⟩
    constructor
    · exact fun lastOne => ⟨name, pid, rfl, lastOne⟩
    · rintro ⟨_, _, same, lastOne⟩
      cases same
      exact lastOne
  rcases s.rtaiKfreeF_cases name pid with ⟨eq, missing⟩ | ⟨slot, owner, found, registered, eq⟩
  · rw [eq]
    refine ⟨⟨S, kept⟩, fair fun a here => iff_of_false (not_not.mpr here) ?_⟩
    rintro ⟨⟨slot, pos, le, has, -⟩, registered, -⟩
    rcases missing with missing | missing
    · exact absurd has (of_decide_eq_false (first_none.mp missing slot pos le))
    · exact (first_cell_none _ kept.owners ne).mp missing ((kept.mem_iff ne).mpr registered)
  · obtain ⟨k, less, rfl, here, -, only⟩ := kept.findName_some named found
    have mem := (kept.clearOwner ne registered).1
    have used : s.Used (k + 1) := by
      rw [Used, here]
      exact named
    have counted := kept.count k less used
    rw [here] at counted
    have some : 0 < (users S name).card := users_pos.mpr (Finset.mem_image_of_mem NamePid.NAME mem)
    have one := kept.only_iff named mem
    rw [eq]
    split_ifs with lastOne
    · refine ⟨⟨_, kept.last named found registered lastOne⟩, fair fun a live => ?_⟩
      have gone : ¬State.Live { (s.setOwner owner .zero .null).setSlot (k + 1) (s.shmList 0) with
          freed := (s.shmList (k + 1)).area :: s.freed } a ↔ a = (s.shmList (k + 1)).area := by
        constructor
        · intro dead
          by_contra other
          exact dead ⟨live.1, fun mem => (List.mem_cons.mp mem).elim other live.2⟩
        · rintro rfl alive
          exact alive.2 List.mem_cons_self
      rw [gone]
      constructor
      · rintro rfl
        exact ⟨⟨k + 1, k.succ_pos, less, here, rfl⟩, (kept.mem_iff ne).mp mem, one.mp (by omega)⟩
      · rintro ⟨⟨slot, pos, le, has, rfl⟩, -, -⟩
        obtain ⟨j, rfl⟩ : ∃ j, slot = j + 1 := ⟨slot - 1, by omega⟩
        rw [only j le has]
    · refine ⟨⟨_, kept.released named found registered lastOne⟩, fair fun a live => ?_⟩
      refine iff_of_false (not_not.mpr live) fun lastUser => ?_
      have := one.mpr lastUser.2.2
      omega

end State.Kept

variable {smp : Bool} {s : State} {tr : List (Record State Event)}

theorem run_kept (run : Run (step smp) (Open smp) {} tr s) :
    (∃ S, s.Kept S) ∧ ∀ r ∈ tr, Fair r := by
  refine run.each (P := fun s => ∃ S, s.Kept S) ⟨_, State.init_kept⟩ ?_
  rintro s s' e ⟨S, kept⟩ ⟨named, enters⟩ stepped
  rw [step, if_pos enters] at stepped
  cases e with
  | kmalloc name size pid adr =>
      cases stepped
      exact kept.kmalloc named.1
  | kfree name pid =>
      cases stepped
      exact kept.kfree named.1

/-- The shared areas in every run in which, on SMP, no call comes after an `rvmalloc` that has
failed. -/
theorem areas_counted (run : Run (step smp) (Open smp) {} tr s) : s.Sound ∧ ∀ r ∈ tr, Fair r := by
  obtain ⟨⟨S, kept⟩, fair⟩ := run_kept run
  exact ⟨kept.sound, fair⟩

/-- Two processes use an area, a third call is one too many, and both free it. -/
theorem areas_counted_freed : ∃ tr s, Run (step true) (Open true) {} tr s ∧ s.freed = [0, 1] ∧
    s.Sound ∧ ∀ r ∈ tr, Fair r := by
  obtain ⟨tr, s, run, ends⟩ := Run.of_execute (step true) (Open true) {}
    [.kmalloc 7 100 1 0xC8000000, .kmalloc 7 100 2 0xC8100000, .kmalloc 7 100 2 0xC8200000,
      .kfree 7 1, .kfree 7 2]
    (fun s => s.freed = [0, 1]) (by decide)
  exact ⟨tr, s, run, of_decide_eq_true ends, areas_counted run⟩

/-- There is no memory for a second area, and the first is not freed. -/
theorem not_areas_counted : ¬∀ tr s, Run (step true) Named {} tr s →
    s.Sound ∧ ∀ r ∈ tr, Fair r := by
  intro counted
  obtain ⟨tr, s, run, ends⟩ := Run.of_execute (step true) Named {}
    [.kmalloc 7 100 1 0xC8000000, .kmalloc 8 100 1 0]
    (fun s => s.locked = true ∧ s.freed = [] ∧ s.allocated = 1 ∧ (s.shmList 1).name = 7 ∧
      (s.shmList 1).area = 0 ∧ s.namePidList 1 = ⟨7, 1⟩ ∧
      ∀ owner ≤ MAX_OWNERS, (s.namePidList owner).NAME = 7 → (s.namePidList owner).PID = 1)
    (by decide +kernel)
  obtain ⟨locked, freed, allocated, name, area, pair, only⟩ := of_decide_eq_true ends
  have spins : step true (.kfree 7 1) s = some s := by
    refine if_neg fun enters => ?_
    rw [enters rfl] at locked
    cases locked
  have named : Named s (.kfree 7 1) := ⟨by decide, by decide⟩
  have call := (counted _ _ (run.snoc named spins)).2 _ (List.mem_append_right _ (.head _))
  have live : s.Live 0 := ⟨by rw [allocated]; exact Nat.one_pos, by rw [freed]; exact List.not_mem_nil⟩
  refine (call.freed 0 live).mpr ⟨7, 1, rfl, ⟨1, Nat.one_pos, by decide, name, area⟩,
    ⟨1, Nat.one_pos, by decide, pair⟩, ?_⟩ live
  rintro pid ⟨owner, -, le, here⟩
  have named := only owner le
  rw [here] at named
  exact named rfl

end Rtai.Shmem
