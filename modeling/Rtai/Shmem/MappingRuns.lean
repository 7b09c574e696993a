import Rtai.Shmem.Mapping

/-!
# Runs of the mapping

Each pair is in one cell, and `State.At` says what `vmarea` has there: the mark of a pair that
can be mapped, which is one that has been requested last, or a mapping.  `Agree` relates this
to the mappings there are.
-/

namespace Rtai.Shmem

open Function Rtai.Lib

variable {S : Finset NamePid} {s : State} {x y : NamePid} {a b : VmArea} {owner : Nat}
  {name pid adr : UInt32} {size : Int32}

namespace State

/-- A pair is registered, with this in `vmarea`. -/
def At (s : State) (x : NamePid) (a : VmArea) : Prop :=
  x ≠ .zero ∧ ∃ owner, 0 < owner ∧ owner ≤ MAX_OWNERS ∧ s.namePidList owner = x ∧ s.vmarea owner = a

theorem registered_iff (ne : x ≠ .zero) : s.Registered x ↔ ∃ a, s.At x a :=
  ⟨fun ⟨owner, pos, le, here⟩ => ⟨_, ne, owner, pos, le, here, rfl⟩,
    fun ⟨_, _, owner, pos, le, here, _⟩ => ⟨owner, pos, le, here⟩⟩

namespace Kept

variable (kept : s.Kept S)
include kept

/-- A pair is in one cell. -/
theorem cell {i j : Nat} (hi : 0 < i) (hi' : i ≤ MAX_OWNERS) (hj : 0 < j) (hj' : j ≤ MAX_OWNERS)
    (ne : s.namePidList i ≠ .zero) (same : s.namePidList i = s.namePidList j) : i = j :=
  kept.sound.pairs i j hi hi' hj hj' ne same

theorem at_unique (here : s.At x a) (here' : s.At x b) : a = b := by
  obtain ⟨ne, i, hi, hi', rfl, rfl⟩ := here
  obtain ⟨-, j, hj, hj', same, rfl⟩ := here'
  rw [kept.cell hi hi' hj hj' ne same.symm]

/-- A cell is written. -/
theorem at_setOwner {s' : State} (pos : 0 < owner) (le : owner ≤ MAX_OWNERS)
    (names : s'.namePidList = update s.namePidList owner y)
    (areas : s'.vmarea = update s.vmarea owner b) :
    s'.At x a ↔ s.At x a ∧ x ≠ s.namePidList owner ∨ x ≠ .zero ∧ x = y ∧ a = b := by
  unfold At
  rw [names, areas]
  constructor
  · rintro ⟨ne, i, hi, hi', here, area⟩
    rcases eq_or_ne i owner with rfl | other
    · rw [update_self] at here area
      exact .inr ⟨ne, here.symm, area.symm⟩
    · rw [update_of_ne other] at here area
      refine .inl ⟨⟨ne, i, hi, hi', here, area⟩, fun same => other ?_⟩
      exact kept.cell hi hi' pos le (here ▸ ne) (here.trans same)
  · rintro (⟨⟨ne, i, hi, hi', rfl, rfl⟩, other⟩ | ⟨ne, rfl, rfl⟩)
    · have differs : i ≠ owner := fun same => other (same ▸ rfl)
      exact ⟨ne, i, hi, hi', update_of_ne differs _ _, update_of_ne differs _ _⟩
    · exact ⟨ne, owner, pos, le, update_self _ _ _, update_self _ _ _⟩

/-- A call that succeeds registers the pair, to be mapped. -/
theorem kmalloc_at (named : name ≠ 0) :
    (s.rtaiKmallocF name size pid adr).1 = 0 ∧
      (∀ x a, (s.rtaiKmallocF name size pid adr).2.At x a ↔ s.At x a) ∨
    (s.rtaiKmallocF name size pid adr).1 ≠ 0 ∧ (∀ a, ¬s.At ⟨name, pid⟩ a) ∧
      ∀ x a, (s.rtaiKmallocF name size pid adr).2.At x a ↔
        s.At x a ∨ x = ⟨name, pid⟩ ∧ a = .mappable pid := by
  have ne := pair_ne_zero named pid
  have registers {owner : Nat} {s' : State} (registered : s.regOwner ⟨name, pid⟩ = some owner)
      (names : s'.namePidList = update s.namePidList owner ⟨name, pid⟩)
      (areas : s'.vmarea = update s.vmarea owner (.mappable pid)) :
      (∀ a, ¬s.At ⟨name, pid⟩ a) ∧
        ∀ x a, s'.At x a ↔ s.At x a ∨ x = ⟨name, pid⟩ ∧ a = .mappable pid := by
    obtain ⟨new, k, less, rfl, free⟩ := kept.regOwner_some ne registered
    refine ⟨fun a here => new ((kept.mem_iff ne).mpr ((registered_iff ne).mpr ⟨a, here⟩)),
      fun x a => ?_⟩
    rw [kept.at_setOwner k.succ_pos less names areas, free]
    constructor
    · rintro (⟨here, -⟩ | ⟨-, here⟩)
      · exact .inl here
      · exact .inr here
    · rintro (here | ⟨rfl, rfl⟩)
      · exact .inl ⟨here, here.1⟩
      · exact .inr ⟨ne, rfl, rfl⟩
  rcases s.rtaiKmallocF_cases name size pid adr with ⟨_, eq⟩ | eq |
    ⟨slot, owner, found, registered, eq⟩ | ⟨slot, owner, missing, found, registered, memory, eq⟩
  · rw [eq]
    exact .inl ⟨rfl, fun _ _ => Iff.rfl⟩
  · rw [eq]
    exact .inl ⟨rfl, fun _ _ => Iff.rfl⟩
  · obtain ⟨k, less, rfl, here, -⟩ := kept.findName_some named found
    rw [eq]
    exact .inr ⟨kept.adr k less (by rw [Used, here]; exact named), registers registered rfl rfl⟩
  · rw [eq]
    exact .inr ⟨memory, registers registered rfl rfl⟩

theorem kfree_at (named : name ≠ 0) :
    (s.rtaiKfreeF name pid).At x a ↔ s.At x a ∧ x ≠ ⟨name, pid⟩ := by
  have ne := pair_ne_zero named pid
  rcases s.rtaiKfreeF_cases name pid with ⟨eq, missing⟩ | ⟨slot, owner, found, registered, eq⟩
  · rw [eq, iff_self_and]
    rintro here rfl
    have mem := (kept.mem_iff ne).mpr ((registered_iff ne).mpr ⟨a, here⟩)
    rcases missing with missing | missing
    · exact (first_cell_none (fun k => (s.shmList k).name) kept.slots named).mp missing
        (Finset.mem_image_of_mem NamePid.NAME mem)
    · exact (first_cell_none _ kept.owners ne).mp missing mem
  · obtain ⟨k, less, rfl, here⟩ := first_cell _ registered
    have written : (s.rtaiKfreeF name pid).namePidList = update s.namePidList (k + 1) .zero ∧
        (s.rtaiKfreeF name pid).vmarea = update s.vmarea (k + 1) .null := by
      rw [eq]
      split_ifs <;> exact ⟨rfl, rfl⟩
    rw [kept.at_setOwner k.succ_pos less written.1 written.2, here]
    constructor
    · rintro (gone | ⟨ne, zero, -⟩)
      · exact gone
      · exact absurd zero ne
    · exact .inl

end Kept

end State

/-! ## The invariant -/

namespace Sys

variable {s s' : Sys} {m : Mapping} {vma : Vma}

/-- The tables say what is mapped, and what is to be.  A request whose pages could not be mapped
is still one that is not mapped. -/
structure Agree (s : Sys) : Prop where
  kept : ∃ S, s.tables.Kept S
  recent : ∀ pid name, s.tables.At ⟨name, pid⟩ (.mappable pid) → name ∈ s.recent pid
  waits : ∀ pid name, name ∈ s.recent pid → ∃ a, s.tables.At ⟨name, pid⟩ a
  nodup : ∀ pid, (s.recent pid).Nodup
  maps : ∀ m ∈ s.maps, s.tables.At m.pair (.vma m.vma) ∧ m.pair.PID ≠ 0 ∧
    m.pair.NAME ∉ s.recent m.pair.PID
  vmas : ∀ {x y v}, s.tables.At x (.vma v) → s.tables.At y (.vma v) → x = y
  unique : (s.maps.map Mapping.vma).Nodup

/-- A pair that can be mapped is the latest request, or behind it when this can be mapped. -/
def Latest (s : Sys) (pid : UInt32) : Prop :=
  ∀ j ≤ MAX_OWNERS, 0 < j → (s.tables.namePidList j).PID = pid →
    s.tables.vmarea j = .mappable pid → ∃ i ≤ j, 0 < i ∧ s.tables.vmarea i = .mappable pid ∧
      ∃ name ∈ (s.recent pid).head?, s.tables.namePidList i = ⟨name, pid⟩

namespace Agree

variable {t : State} (agree : s.Agree)
include agree

theorem name_ne (here : s.tables.At x a) : x.NAME ≠ 0 := by
  obtain ⟨S, kept⟩ := agree.kept
  have mem := (kept.mem_iff here.1).mpr ((State.registered_iff here.1).mpr ⟨a, here⟩)
  exact (kept.slots.mem.mp (Finset.mem_image_of_mem NamePid.NAME mem)).1

theorem findName (here : s.tables.At x a) :
    ∃ slot, s.tables.findName x.NAME = some slot ∧ 0 < slot ∧ slot ≤ MAX_SLOTS ∧
      (s.tables.shmList slot).name = x.NAME := by
  obtain ⟨S, kept⟩ := agree.kept
  have mem := (kept.mem_iff here.1).mpr ((State.registered_iff here.1).mpr ⟨a, here⟩)
  cases found : s.tables.findName x.NAME with
  | none =>
      exact absurd (Finset.mem_image_of_mem NamePid.NAME mem) ((first_cell_none
        (fun k => (s.tables.shmList k).name) kept.slots (agree.name_ne here)).mp found)
  | some slot =>
      obtain ⟨k, less, rfl, named, -⟩ := kept.findName_some (agree.name_ne here) found
      exact ⟨k + 1, rfl, k.succ_pos, less, named⟩

theorem request (named : name ≠ 0) : (s.request pid name size adr).Agree := by
  obtain ⟨S, kept⟩ := agree.kept
  have kept' : ∃ S', (s.tables.rtaiKmallocF name size pid adr).2.Kept S' := (kept.kmalloc named).1
  rcases @State.Kept.kmalloc_at S s.tables name pid adr size kept named with
    ⟨failed, same⟩ | ⟨done, new, added⟩
  · unfold Sys.request
    simp only [failed, ne_eq, not_true_eq_false, if_false]
    exact ⟨kept', fun pid name here => agree.recent pid name ((same _ _).mp here),
      fun pid name mem => (agree.waits pid name mem).imp fun a => (same _ a).mpr, agree.nodup,
      fun m mem => (agree.maps m mem).imp_left (same _ _).mpr,
      fun here here' => agree.vmas ((same _ _).mp here) ((same _ _).mp here'), agree.unique⟩
  · unfold Sys.request
    simp only [done, ne_eq, not_false_eq_true, if_true]
    have unrequested : name ∉ s.recent pid := fun mem =>
      (agree.waits pid name mem).elim new
    have mem_iff (pid' name' : UInt32) :
        name' ∈ update s.recent pid (name :: s.recent pid) pid' ↔
          name' ∈ s.recent pid' ∨ (⟨name', pid'⟩ : NamePid) = ⟨name, pid⟩ := by
      rcases eq_or_ne pid' pid with rfl | other
      · simp [or_comm]
      · simp [other]
    refine ⟨kept', fun pid' name' here => ?_, fun pid' name' mem => ?_, fun pid' => ?_,
      fun m mem => ?_, fun here here' => ?_, agree.unique⟩
    · rw [mem_iff]
      exact ((added _ _).mp here).imp (agree.recent _ _) And.left
    · rcases (mem_iff _ _).mp mem with mem | same
      · exact (agree.waits _ _ mem).imp fun a here => (added _ a).mpr (.inl here)
      · exact ⟨_, (added _ _).mpr (.inr ⟨same, rfl⟩)⟩
    · rcases eq_or_ne pid' pid with rfl | other
      · simpa using ⟨unrequested, agree.nodup _⟩
      · simpa [other] using agree.nodup _
    · obtain ⟨here, real, unlisted⟩ := agree.maps m mem
      refine ⟨(added _ _).mpr (.inl here), real, fun mem => ?_⟩
      rcases (mem_iff _ _).mp mem with mem | same
      · exact unlisted mem
      · have same : m.pair = ⟨name, pid⟩ := same
        exact new _ (same ▸ here)
    · rw [added] at here here'
      simp only [reduceCtorEq, and_false, or_false] at here here'
      exact agree.vmas here here'

theorem mem_erase {pid' name' : UInt32} :
    name' ∈ update s.recent pid ((s.recent pid).erase name) pid' ↔
      name' ∈ s.recent pid' ∧ (⟨name', pid'⟩ : NamePid) ≠ ⟨name, pid⟩ := by
  rcases eq_or_ne pid' pid with rfl | other
  · simp [(agree.nodup pid').mem_erase_iff, and_comm]
  · simp [other]

theorem nodup_erase (pid' : UInt32) :
    (update s.recent pid ((s.recent pid).erase name) pid').Nodup := by
  rcases eq_or_ne pid' pid with rfl | other
  · rw [update_self]
    exact (agree.nodup pid').erase name
  · rw [update_of_ne other]
    exact agree.nodup pid'

/-- A pair goes. -/
theorem released {maps' : List Mapping} {recent' : UInt32 → List UInt32} {ops : Nat → Bool}
    (kept : ∃ S, t.Kept S) (gone : ∀ x a, t.At x a ↔ s.tables.At x a ∧ x ≠ ⟨name, pid⟩)
    (recent : recent' = update s.recent pid ((s.recent pid).erase name))
    (fewer : List.Sublist maps' s.maps) (others : ∀ m ∈ maps', m.pair ≠ ⟨name, pid⟩) :
    Agree ⟨t, ops, maps', recent'⟩ := by
  subst recent
  refine ⟨kept, fun pid' name' here => ?_, fun pid' name' mem => ?_, agree.nodup_erase,
    fun m mem => ?_, fun here here' => ?_, (fewer.map _).nodup agree.unique⟩
  · obtain ⟨here, other⟩ := (gone _ _).mp here
    exact agree.mem_erase.mpr ⟨agree.recent _ _ here, other⟩
  · obtain ⟨mem, other⟩ := agree.mem_erase.mp mem
    exact (agree.waits _ _ mem).imp fun a here => (gone _ a).mpr ⟨here, other⟩
  · obtain ⟨here, real, unlisted⟩ := agree.maps m (fewer.subset mem)
    exact ⟨(gone _ _).mpr ⟨here, others m mem⟩, real, fun mem => unlisted (agree.mem_erase.mp mem).1⟩
  · exact agree.vmas ((gone _ _).mp here).1 ((gone _ _).mp here').1

theorem free (named : name ≠ 0) (unmapped : ∀ m ∈ s.maps, m.pair ≠ ⟨name, pid⟩) :
    (s.free pid name).Agree := by
  obtain ⟨S, kept⟩ := agree.kept
  exact agree.released (kept.kfree named).1 (fun _ _ => kept.kfree_at named) rfl
    (List.Sublist.refl _) unmapped

/-- `rtai_shm_mmap` takes the latest request, or none. -/
theorem takes (latest : s.Latest pid) :
    s.rtaiShmMmap pid vma = (none, s) ∨
    ∃ name ∈ (s.recent pid).head?, ∃ owner slot, 0 < owner ∧ owner ≤ MAX_OWNERS ∧
      s.tables.namePidList owner = ⟨name, pid⟩ ∧
      0 < slot ∧ slot ≤ MAX_SLOTS ∧ (s.tables.shmList slot).name = name ∧
      s.rtaiShmMmap pid vma =
        (if rvmmap (s.tables.shmList slot).adr (s.tables.shmList slot).size vma then
          some ⟨vma.address, ⟨name, pid⟩, (s.tables.shmList slot).adr, (s.tables.shmList slot).size⟩
        else none, { s with
          tables := { s.tables with vmarea := update s.tables.vmarea owner (.vma vma.address) }
          vmOps := update s.vmOps vma.address true }) := by
  cases searched : first MAX_OWNERS (fun owner => (s.tables.namePidList owner).PID = pid ∧
      s.tables.vmarea owner = .mappable pid) with
  | none =>
      left
      rw [rtaiShmMmap, searched]
  | some owner =>
      right
      obtain ⟨pos, le, yes, before⟩ := first_some searched
      obtain ⟨same, area⟩ := of_decide_eq_true yes
      obtain ⟨i, low, pos', area', name, first, pair⟩ := latest owner le pos same area
      -- The search has not gone past the latest request.
      have stops : ¬i < owner := fun less =>
        absurd ⟨by rw [pair], area'⟩ (of_decide_eq_false (before i pos' less))
      obtain rfl : i = owner := by omega
      have listed := List.mem_of_mem_head? first
      obtain ⟨a, here⟩ := agree.waits pid name listed
      obtain ⟨slot, found, low, high, named⟩ := agree.findName here
      refine ⟨name, first, i, slot, pos, le, pair, low, high, named, ?_⟩
      rw [rtaiShmMmap, searched]
      simp only [pair, found]
      split_ifs <;> rfl

/-- A cell has the structure instead of the mark. -/
theorem marked (listed : name ∈ s.recent pid) (pos : 0 < owner) (le : owner ≤ MAX_OWNERS)
    (pair : s.tables.namePidList owner = ⟨name, pid⟩) (v : Nat) (x : NamePid) (a : VmArea) :
    State.At { s.tables with vmarea := update s.tables.vmarea owner (.vma v) } x a ↔
      s.tables.At x a ∧ x ≠ ⟨name, pid⟩ ∨ x = ⟨name, pid⟩ ∧ a = .vma v := by
  obtain ⟨S, kept⟩ := agree.kept
  obtain ⟨b, ne, -⟩ := agree.waits pid name listed
  have names : State.namePidList { s.tables with vmarea := update s.tables.vmarea owner (.vma v) } =
      update s.tables.namePidList owner ⟨name, pid⟩ := by
    rw [← pair, update_eq_self]
  rw [kept.at_setOwner pos le names rfl, pair]
  constructor
  · rintro (old | ⟨-, new⟩)
    · exact .inl old
    · exact .inr new
  · rintro (old | ⟨rfl, rfl⟩)
    · exact .inl old
    · exact .inr ⟨ne, rfl, rfl⟩

/-- No mapping has the structure of a cell that is marked with it. -/
theorem vmas_marked {v : Nat}
    (moves : ∀ x a, t.At x a ↔ s.tables.At x a ∧ x ≠ y ∨ x = y ∧ a = .vma v)
    (unused : ∀ x, ¬s.tables.At x (.vma v)) {x x' : NamePid} {v' : Nat} (here : t.At x (.vma v'))
    (here' : t.At x' (.vma v')) : x = x' := by
  rw [moves] at here here'
  rcases here with ⟨here, -⟩ | ⟨rfl, same⟩ <;> rcases here' with ⟨here', -⟩ | ⟨rfl, same'⟩
  · exact agree.vmas here here'
  · exact absurd (VmArea.vma.inj same' ▸ here) (unused _)
  · exact absurd (VmArea.vma.inj same ▸ here') (unused _)
  · rfl

theorem pair_ne (listed : name ∈ s.recent pid) (mem : m ∈ s.maps) :
    m.pair ≠ ⟨name, pid⟩ := fun same => (agree.maps m mem).2.2 (by rw [same]; exact listed)

/-- A pair is mapped. -/
theorem mapped (real : pid ≠ 0) (listed : name ∈ s.recent pid) (pos : 0 < owner)
    (le : owner ≤ MAX_OWNERS) (pair : s.tables.namePidList owner = ⟨name, pid⟩)
    (unused : ∀ x, ¬s.tables.At x (.vma vma.address)) (free : ∀ m ∈ s.maps, m.vma ≠ vma.address)
    (memory : UInt32) (size : UInt32) :
    Agree { s with
      tables := { s.tables with vmarea := update s.tables.vmarea owner (.vma vma.address) }
      vmOps := update s.vmOps vma.address true
      maps := ⟨vma.address, ⟨name, pid⟩, memory, size⟩ :: s.maps
      recent := update s.recent pid ((s.recent pid).erase name) } := by
  obtain ⟨S, kept⟩ := agree.kept
  have moves := agree.marked listed pos le pair vma.address
  refine ⟨⟨S, kept.owners, kept.slots, kept.count, kept.adr, kept.zero, kept.live, kept.distinct,
    kept.nodup, kept.freed⟩, fun pid' name' here => ?_, fun pid' name' mem => ?_,
    agree.nodup_erase, fun m mem => ?_, agree.vmas_marked moves unused, ?_⟩
  · rcases (moves _ _).mp here with ⟨here, other⟩ | ⟨-, area⟩
    · exact agree.mem_erase.mpr ⟨agree.recent _ _ here, other⟩
    · cases area
  · obtain ⟨mem, other⟩ := agree.mem_erase.mp mem
    exact (agree.waits _ _ mem).imp fun a here => (moves _ a).mpr (.inl ⟨here, other⟩)
  · rcases List.mem_cons.mp mem with rfl | old
    · exact ⟨(moves _ _).mpr (.inr ⟨rfl, rfl⟩), real, fun mem => (agree.mem_erase.mp mem).2 rfl⟩
    · obtain ⟨here, real, unlisted⟩ := agree.maps m old
      exact ⟨(moves _ _).mpr (.inl ⟨here, agree.pair_ne listed old⟩), real,
        fun mem => unlisted (agree.mem_erase.mp mem).1⟩
  · rw [List.map_cons, List.nodup_cons]
    refine ⟨fun mem => ?_, agree.unique⟩
    obtain ⟨m, mem, same⟩ := List.mem_map.mp mem
    exact free m mem same

/-- The mark of a pair is gone, and its pages are not mapped. -/
theorem failed (listed : name ∈ s.recent pid) (pos : 0 < owner) (le : owner ≤ MAX_OWNERS)
    (pair : s.tables.namePidList owner = ⟨name, pid⟩)
    (unused : ∀ x, ¬s.tables.At x (.vma vma.address)) (ops : Nat → Bool) :
    Agree { s with
      tables := { s.tables with vmarea := update s.tables.vmarea owner (.vma vma.address) }
      vmOps := ops } := by
  obtain ⟨S, kept⟩ := agree.kept
  have moves := agree.marked listed pos le pair vma.address
  refine ⟨⟨S, kept.owners, kept.slots, kept.count, kept.adr, kept.zero, kept.live, kept.distinct,
    kept.nodup, kept.freed⟩, fun pid' name' here => ?_, fun pid' name' mem => ?_, agree.nodup,
    fun m mem => ?_, agree.vmas_marked moves unused, agree.unique⟩
  · rcases (moves _ _).mp here with ⟨here, -⟩ | ⟨-, area⟩
    · exact agree.recent _ _ here
    · cases area
  · by_cases same : (⟨name', pid'⟩ : NamePid) = ⟨name, pid⟩
    · exact ⟨_, (moves _ _).mpr (.inr ⟨same, rfl⟩)⟩
    · exact (agree.waits _ _ mem).imp fun a here => (moves _ a).mpr (.inl ⟨here, same⟩)
  · obtain ⟨here, real, unlisted⟩ := agree.maps m mem
    exact ⟨(moves _ _).mpr (.inl ⟨here, agree.pair_ne listed mem⟩), real, unlisted⟩

/-- A close releases the pair that is mapped. -/
theorem close (mem : m ∈ s.maps) (same : m.pair.PID = pid) :
    s.tables.rtaiShmVmClose m.vma pid = s.tables.rtaiKfreeF m.pair.NAME pid := by
  obtain ⟨here, real, -⟩ := agree.maps m mem
  obtain ⟨slot, found, -, -, named⟩ := agree.findName here
  obtain ⟨-, i, pos, le, pair, area⟩ := here
  rw [State.rtaiShmVmClose]
  cases searched : first MAX_OWNERS (fun owner => s.tables.vmarea owner = .vma m.vma ∧
      (s.tables.namePidList owner).PID = pid) with
  | none =>
      exact absurd ⟨area, by rw [pair, same]⟩ (of_decide_eq_false (first_none.mp searched i pos le))
  | some owner =>
      obtain ⟨pos', le', yes, -⟩ := first_some searched
      obtain ⟨area', pid'⟩ := of_decide_eq_true yes
      have ne : s.tables.namePidList owner ≠ .zero := fun zero =>
        real (same.trans (pid'.symm.trans (congrArg NamePid.PID zero)))
      have one : s.tables.namePidList owner = m.pair :=
        agree.vmas ⟨ne, owner, pos', le', rfl, area'⟩ (agree.maps m mem).1
      simp only [one, found, named]

theorem unmap (mem : m ∈ s.maps) (same : m.pair.PID = pid) :
    (s.unmap pid m).Agree ∧ ∀ x a, (s.unmap pid m).tables.At x a ↔
      s.tables.At x a ∧ (s.vmOps m.vma = true → x ≠ m.pair) := by
  obtain ⟨S, kept⟩ := agree.kept
  have here := (agree.maps m mem).1
  have fewer : List.Sublist (s.maps.filter (·.vma ≠ m.vma)) s.maps := List.filter_sublist
  have named := agree.name_ne here
  have pair : m.pair = ⟨m.pair.NAME, pid⟩ := by rw [← same]
  rw [Sys.unmap, agree.close mem same]
  cases ops : s.vmOps m.vma with
  | true =>
      simp only [if_true, forall_const]
      have gone (x : NamePid) (a : VmArea) : (s.tables.rtaiKfreeF m.pair.NAME pid).At x a ↔
          s.tables.At x a ∧ x ≠ ⟨m.pair.NAME, pid⟩ := kept.kfree_at named
      refine ⟨agree.released (kept.kfree named).1 gone ?_ fewer fun m' mem' => ?_, fun x a => ?_⟩
      · have unlisted : m.pair.NAME ∉ s.recent pid := same ▸ (agree.maps m mem).2.2
        rw [List.erase_of_not_mem unlisted, update_eq_self]
      · obtain ⟨mem', other⟩ := List.mem_filter.mp mem'
        intro same'
        have areas := kept.at_unique (agree.maps m' mem').1 ((same'.trans pair.symm) ▸ here)
        exact of_decide_eq_true other (VmArea.vma.inj areas)
      · rw [gone, ← pair]
  | false =>
      simp only [Bool.false_eq_true, if_false, false_implies, and_true, implies_true]
      exact ⟨agree.kept, agree.recent, agree.waits, agree.nodup,
        fun m mem => agree.maps m (fewer.subset mem), agree.vmas, (fewer.map _).nodup agree.unique⟩

/-- The mappings of a list go, with their operations. -/
theorem unmaps {l : List Mapping} (distinct : l.Nodup)
    (mem : ∀ m ∈ l, m ∈ s.maps ∧ m.pair.PID = pid ∧ s.vmOps m.vma = true) :
    (l.foldl (fun s m => s.unmap pid m) s).Agree ∧
      ∀ x a, (l.foldl (fun s m => s.unmap pid m) s).tables.At x a ↔
        s.tables.At x a ∧ ∀ m ∈ l, x ≠ m.pair := by
  induction l generalizing s with
  | nil => simp [agree]
  | cons m l ih =>
      obtain ⟨out, distinct⟩ := List.nodup_cons.mp distinct
      obtain ⟨mem₀, same, ops⟩ := mem m List.mem_cons_self
      obtain ⟨agree', gone⟩ := agree.unmap mem₀ same
      have rest : ∀ m' ∈ l, m' ∈ (s.unmap pid m).maps ∧ m'.pair.PID = pid ∧
          (s.unmap pid m).vmOps m'.vma = true := by
        intro m' mem'
        obtain ⟨mem₁, same', ops'⟩ := mem m' (List.mem_cons_of_mem m mem')
        have other : m'.vma ≠ m.vma := fun one =>
          out (List.inj_on_of_nodup_map agree.unique mem₁ mem₀ one ▸ mem')
        exact ⟨List.mem_filter.mpr ⟨mem₁, decide_eq_true other⟩, same',
          (update_of_ne other _ _).trans ops'⟩
      obtain ⟨agree'', gone'⟩ := ih agree' distinct rest
      refine ⟨agree'', fun x a => ?_⟩
      rw [List.foldl_cons, gone', gone]
      simp [ops, and_assoc]

end Agree

/-! ## Runs -/

/-- The requests that leave the tables in step with the mappings. -/
def Proper (s : Sys) : Request → Prop
  | .request pid name _ _ => pid ≠ 0 ∧ name ≠ 0
  -- The latest request lies in front, and no cell has the address of the structure.
  | .mmap pid vma => pid ≠ 0 ∧ s.Latest pid ∧
      ∀ owner ≤ MAX_OWNERS, 0 < owner → s.tables.vmarea owner ≠ .vma vma.address
  | .getSize .. => True
  -- What is freed is not mapped any more.
  | .free pid name => name ≠ 0 ∧ ∀ m ∈ s.maps, m.pair ≠ ⟨name, pid⟩
  | .unmap .. => True
  -- The process is not between two requests of `rtai_free`.
  | .exit pid => ∀ x, x ≠ .zero → x.PID = pid → s.tables.Registered x → x.NAME ∉ s.recent pid →
      ∃ m ∈ s.maps, m.pair = x ∧ s.vmOps m.vma = true

/-- The pairs that are released are those with a property. -/
def Releases (s s' : Sys) (P : NamePid → Prop) : Prop :=
  ∀ x, x ≠ .zero → (s'.tables.Registered x ↔ s.tables.Registered x ∧ ¬P x)

/-- What is said of a request: what is mapped is the area of the latest name, with its size, and
what goes is the pair that was mapped, at once or by the request of `rtai_free`. -/
structure Right (r : Record Sys Request) : Prop where
  mapped : ∀ pid vma, r.event = .mmap pid vma → ∀ m ∈ r.post.maps, m ∉ r.pre.maps →
    m.vma = vma.address ∧ m.pair.PID = pid ∧ (r.pre.recent pid).head? = some m.pair.NAME ∧
      ∃ slot, 0 < slot ∧ slot ≤ MAX_SLOTS ∧ (r.pre.tables.shmList slot).name = m.pair.NAME ∧
        (r.pre.tables.shmList slot).adr = m.adr ∧ (r.pre.tables.shmList slot).size = m.size
  unmapped : ∀ pid vma, r.event = .unmap pid vma → ∀ m ∈ r.pre.maps, m.vma = vma →
    r.pre.tables.Registered m.pair ∧
      r.pre.Releases r.post fun x => x = m.pair ∧ r.pre.vmOps vma = true
  freed : ∀ pid name, r.event = .free pid name → r.pre.Releases r.post fun x => x = ⟨name, pid⟩
  exited : ∀ pid, r.event = .exit pid →
    r.pre.Releases r.post fun x => x.PID = pid ∧ x.NAME ∉ r.pre.recent pid

theorem init_agree : ({} : Sys).Agree := by
  have nothing (x : NamePid) (a : VmArea) : ¬({} : Sys).tables.At x a :=
    fun ⟨ne, _, _, _, here, _⟩ => ne here.symm
  exact ⟨⟨_, State.init_kept⟩, fun _ _ here => absurd here (nothing _ _),
    fun _ _ mem => absurd mem List.not_mem_nil, fun _ => List.nodup_nil,
    fun _ mem => absurd mem List.not_mem_nil, fun here => absurd here (nothing _ _),
    List.nodup_nil⟩

theorem releases_of {P : NamePid → Prop} (gone : ∀ x a, s'.tables.At x a ↔ s.tables.At x a ∧ ¬P x) :
    s.Releases s' P := by
  intro x ne
  simp only [State.registered_iff ne, gone, exists_and_right]

namespace Agree

variable (agree : s.Agree)
include agree

theorem ops (ops : Nat → Bool) : Agree { s with vmOps := ops } :=
  ⟨agree.kept, agree.recent, agree.waits, agree.nodup, agree.maps, agree.vmas, agree.unique⟩

theorem mmap (proper : s.Proper (.mmap pid vma)) (free : ∀ m ∈ s.maps, m.vma ≠ vma.address) :
    (s.mmap pid vma).Agree ∧ Right ⟨s, .mmap pid vma, s.mmap pid vma⟩ := by
  obtain ⟨real, latest, unused⟩ := proper
  have unused (x : NamePid) : ¬s.tables.At x (.vma vma.address) :=
    fun ⟨_, i, hi, hi', _, area⟩ => unused i hi' hi area
  rcases @takes pid s vma agree latest with
    nothing | ⟨name, first, owner, slot, pos, le, pair, pos', le', named, taken⟩
  · rw [Sys.mmap, nothing]
    exact ⟨agree.ops _, fun _ _ _ m new old => absurd new old, nofun, nofun, nofun⟩
  · have listed := List.mem_of_mem_head? first
    split_ifs at taken
    · rw [Sys.mmap, taken]
      refine ⟨agree.mapped real listed pos le pair unused free _ _,
        fun _ _ same m new old => ?_, nofun, nofun, nofun⟩
      cases same
      obtain rfl := (List.mem_cons.mp new).resolve_right old
      exact ⟨rfl, rfl, first, slot, pos', le', named, rfl, rfl⟩
    · rw [Sys.mmap, taken]
      exact ⟨agree.failed listed pos le pair unused _, fun _ _ _ m new old => absurd new old,
        nofun, nofun, nofun⟩

theorem getSize {result : UInt32 × Sys} (sized : s.getSize pid name = some result) :
    result.2.Agree := by
  unfold Sys.getSize at sized
  split at sized
  · split at sized
    · exact Option.some.inj sized ▸ agree
    · exact absurd sized nofun
    · split_ifs at sized
      dsimp only at sized
      split at sized
      · exact Option.some.inj sized ▸ agree.ops _
      · exact Option.some.inj sized ▸ agree.ops _
  · exact Option.some.inj sized ▸ agree

theorem exit (proper : s.Proper (.exit pid)) :
    (s.exit pid).Agree ∧ Right ⟨s, .exit pid, s.exit pid⟩ := by
  have distinct : (s.maps.filter (·.pair.PID = pid)).Nodup :=
    (List.Nodup.of_map _ agree.unique).filter _
  have mem : ∀ m ∈ s.maps.filter (·.pair.PID = pid),
      m ∈ s.maps ∧ m.pair.PID = pid ∧ s.vmOps m.vma = true := by
    intro m mem
    obtain ⟨mem, same⟩ := List.mem_filter.mp mem
    have same := of_decide_eq_true same
    obtain ⟨here, -, unlisted⟩ := agree.maps m mem
    obtain ⟨m', mem', pair, ops⟩ := proper m.pair here.1 same
      ((State.registered_iff here.1).mpr ⟨_, here⟩) (same ▸ unlisted)
    obtain ⟨S, kept⟩ := agree.kept
    have areas := kept.at_unique here (pair ▸ (agree.maps m' mem').1)
    exact ⟨mem, same, VmArea.vma.inj areas ▸ ops⟩
  obtain ⟨agree', gone⟩ := agree.unmaps distinct mem
  refine ⟨agree', nofun, nofun, nofun, fun _ same => releases_of fun x a => ?_⟩
  cases same
  rw [Sys.exit, gone, and_congr_right_iff]
  intro here
  constructor
  · rintro others ⟨same, unlisted⟩
    obtain ⟨m, mem, rfl, -⟩ :=
      proper x here.1 same ((State.registered_iff here.1).mpr ⟨a, here⟩) unlisted
    exact others m (List.mem_filter.mpr ⟨mem, decide_eq_true same⟩) rfl
  · rintro listed m mem rfl
    obtain ⟨mem, same⟩ := List.mem_filter.mp mem
    have same := of_decide_eq_true same
    exact listed ⟨same, same ▸ (agree.maps m mem).2.2⟩

theorem step {e : Request} (proper : s.Proper e) (stepped : step e s = some s') :
    s'.Agree ∧ Right ⟨s, e, s'⟩ := by
  cases e with
  | request pid name size adr =>
      cases stepped
      exact ⟨agree.request proper.2, nofun, nofun, nofun, nofun⟩
  | mmap pid vma =>
      simp only [Sys.step] at stepped
      split at stepped
      next free =>
        cases stepped
        exact agree.mmap proper fun m mem => of_decide_eq_true (List.all_eq_true.mp free m mem)
      next => cases stepped
  | getSize pid name =>
      obtain ⟨result, sized, rfl⟩ := Option.map_eq_some_iff.mp stepped
      exact ⟨agree.getSize sized, nofun, nofun, nofun, nofun⟩
  | free pid name =>
      cases stepped
      obtain ⟨S, kept⟩ := agree.kept
      refine ⟨agree.free proper.1 proper.2, nofun, nofun, fun _ _ same => ?_, nofun⟩
      cases same
      exact releases_of fun _ _ => kept.kfree_at proper.1
  | unmap pid vma =>
      simp only [Sys.step] at stepped
      split at stepped
      next m found =>
        cases stepped
        have mem := List.mem_of_find?_eq_some found
        obtain ⟨here, -⟩ := List.find?_eq_some_iff_append.mp found
        obtain ⟨rfl, same⟩ := of_decide_eq_true here
        obtain ⟨agree', gone⟩ := agree.unmap mem same
        refine ⟨agree', nofun, fun _ _ same m' mem' one => ?_, nofun, nofun⟩
        cases same
        obtain rfl := List.inj_on_of_nodup_map agree.unique mem' mem one
        have here := (agree.maps m' mem').1
        refine ⟨(State.registered_iff here.1).mpr ⟨_, here⟩, releases_of fun x a => ?_⟩
        rw [gone]
        simp only [not_and', ne_eq]
      next => cases stepped
  | exit pid =>
      cases stepped
      exact agree.exit proper

end Agree

/-- What is mapped and released in every run of such requests. -/
theorem mapping_right {tr : List (Record Sys Request)} {s : Sys}
    (run : Run step Proper {} tr s) : ∀ r ∈ tr, Right r := by
  have all : s.Agree ∧ ∀ r ∈ tr, Right r :=
    run.each init_agree fun agree proper stepped => agree.step proper stepped
  exact all.2

/-- A process requests an area, maps and unmaps it. -/
theorem mapping_right_unmapped : ∃ tr s, Run step Proper {} tr s ∧ tr.length = 3 ∧
    s.tables.freed = [0] ∧ ∀ r ∈ tr, Right r := by
  let vma : Vma := ⟨0, 0x40000000, 4096, 0, true⟩
  let requested := Sys.request 1 7 4096 0xC8000000 {}
  let mapped := requested.mmap 1 vma
  have first : Run step Proper {} [⟨{}, .request 1 7 4096 0xC8000000, requested⟩] requested :=
    Run.nil.snoc ⟨by decide, by decide⟩ rfl
  have latest : requested.Latest 1 := fun j le pos same _ =>
    ⟨1, pos, Nat.one_pos, by decide, 7, by decide, by decide⟩
  have second : Run step Proper {} _ mapped :=
    first.snoc (show requested.Proper (.mmap 1 vma) from ⟨by decide, latest, by decide⟩) rfl
  have found : (mapped.maps.find? fun m => m.vma = 0 ∧ m.pair.PID = 1) =
      some ⟨0, ⟨7, 1⟩, 0xC8000000, 4096⟩ := by decide
  have third : Run step Proper {} _ (mapped.unmap 1 ⟨0, ⟨7, 1⟩, 0xC8000000, 4096⟩) :=
    second.snoc (show mapped.Proper (.unmap 1 0) from trivial) (by simp only [Sys.step, found])
  exact ⟨_, _, third, rfl, by decide, mapping_right third⟩

/-- The request of the name 7 is not mapped, and the one of the name 8 is mapped to the area
of 7. -/
theorem not_mapping_right : ¬∀ tr s, Run step (fun _ _ => True) {} tr s → ∀ r ∈ tr, Right r := by
  intro right
  obtain ⟨tr, s, run, test⟩ := Run.of_records step (fun _ _ => True) {}
    [.request 1 7 4096 0xC8000000, .request 1 8 4096 0xC8100000,
      .mmap 1 ⟨0, 0x40000000, 4096, 0, true⟩]
    (fun tr _ => tr.any fun r => match r.event with
      | .mmap pid _ => (r.pre.maps = []) && (r.pre.recent pid).head? = some 8 &&
          (r.post.maps.map fun m => m.pair.NAME) = [7]
      | _ => false) (by decide)
  obtain ⟨r, mem, test⟩ := List.any_eq_true.mp test
  split at test
  next pid vma event =>
    simp only [Bool.and_eq_true, decide_eq_true_eq] at test
    obtain ⟨⟨empty, latest⟩, names⟩ := test
    obtain ⟨m, maps, named⟩ := List.map_eq_singleton_iff.mp names
    have new : m ∈ r.post.maps := by
      rw [maps]
      exact List.mem_singleton_self m
    have old : m ∉ r.pre.maps := by
      rw [empty]
      exact List.not_mem_nil
    have asked := ((right tr s run r mem).mapped pid vma event m new old).2.2.1
    rw [latest, named] at asked
    exact absurd asked (by decide)
  next => cases test

end Sys

end Rtai.Shmem
