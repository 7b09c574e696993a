import Rtai.Lxrt.Identifiers
import Mathlib.Data.List.Nodup
import Mathlib.Data.List.Range

/-!
# The two tables of the task identifiers

`Tables.owner` is the task of the slot that holds a pid.  The chains of the hash table say the
same as the slots (`Chains`) as long as no cell could not be had, no pid was assigned with all
slots in use, and no pid was released that its slot does not hold: such a release would take
the slot and leave the cell.
-/

namespace Rtai.Lxrt.Identifiers

open Function Rtai.Lib

/-! ## Pids -/

theorem low_byte_shift (version : BitVec 8) : (version.setWidth 32 <<< 8) &&& MASKPID = 0 := by
  revert version
  decide +kernel

variable {type : BitVec 32}

theorem idx_nextPid {slot : Slot} {i : Nat} (small : i < 255) (plain : type &&& MASKPID = 0) :
    idx (Tables.nextPid slot type i) = i := by
  have low : BitVec.ofNat 32 i &&& MASKPID = BitVec.ofNat 32 i := by
    apply BitVec.eq_of_toNat_eq
    rw [BitVec.toNat_and, BitVec.toNat_ofNat, Nat.mod_eq_of_lt (by omega)]
    exact (Nat.and_two_pow_sub_one_eq_mod i 8).trans (Nat.mod_eq_of_lt (by omega))
  have bits : Tables.nextPid slot type i &&& MASKPID = BitVec.ofNat 32 i := by
    rw [Tables.nextPid, BitVec.and_or_distrib_right, BitVec.and_or_distrib_right,
      low_byte_shift, plain, low]
    simp
  rw [idx, bits, BitVec.toNat_ofNat]
  omega

theorem ne_zero_of_idx {pid : Pid} (h : 0 < idx pid) : pid ≠ 0 := by
  intro zero
  subst zero
  cases h

/-! ## Chains -/

/-- The chains hold a cell for every pid that a task owns, and none twice. -/
structure Chains (owner : Pid → Option TaskPtr) (hash : Nat → List Cell) : Prop where
  cell : ∀ {k c}, c ∈ hash k → hashIdx c.task = k ∧ owner c.pid = some c.task
  once : ∀ k, ((hash k).map Cell.pid).Nodup
  linked : ∀ {pid task}, owner pid = some task → task ≠ RESERVED →
    ⟨pid, task⟩ ∈ hash (hashIdx task)

namespace Chains

variable {owner : Pid → Option TaskPtr} {hash : Nat → List Cell} {pid : Pid} {task : TaskPtr}

theorem append (h : Chains owner hash) (new : owner pid = none) :
    Chains (update owner pid (some task))
      (update hash (hashIdx task) (hash (hashIdx task) ++ [⟨pid, task⟩])) where
  cell := by
    intro k c mem
    have old (mem : c ∈ hash k) : hashIdx c.task = k ∧
        update owner pid (some task) c.pid = some c.task := by
      have ⟨place, owned⟩ := h.cell mem
      have other : c.pid ≠ pid := by
        intro same
        rw [same, new] at owned
        cases owned
      exact ⟨place, by rw [update_of_ne other, owned]⟩
    by_cases same : k = hashIdx task
    · subst same
      rw [update_self, List.mem_append, List.mem_singleton] at mem
      cases mem with
      | inl mem => exact old mem
      | inr new =>
          subst new
          exact ⟨rfl, update_self ..⟩
    · rw [update_of_ne same] at mem
      exact old mem
  once := by
    intro k
    by_cases same : k = hashIdx task
    · subst same
      rw [update_self, List.map_append, List.map_singleton, List.nodup_append]
      refine ⟨h.once _, List.nodup_singleton _, ?_⟩
      intro a mem b new' eq
      obtain ⟨c, cell, rfl⟩ := List.mem_map.mp mem
      rw [List.mem_singleton.mp new'] at eq
      have owned := (h.cell cell).2
      rw [eq, new] at owned
      cases owned
    · rw [update_of_ne same]
      exact h.once k
  linked := by
    intro p t owned real
    by_cases same : p = pid
    · subst same
      rw [update_self, Option.some.injEq] at owned
      subst owned
      simp
    · rw [update_of_ne same] at owned
      have mem := h.linked owned real
      by_cases chain : hashIdx t = hashIdx task
      · rw [chain, update_self, List.mem_append, ← chain]
        exact .inl mem
      · rwa [update_of_ne chain]

theorem erase (h : Chains owner hash) (owned : owner pid = some task) :
    Chains (update owner pid none)
      (update hash (hashIdx task) ((hash (hashIdx task)).erase ⟨pid, task⟩)) := by
  have nodup : (hash (hashIdx task)).Nodup := (h.once _).of_map
  constructor
  case cell =>
    intro k c mem
    have old (mem : c ∈ hash k) (other : c ≠ ⟨pid, task⟩) : hashIdx c.task = k ∧
        update owner pid none c.pid = some c.task := by
      have ⟨place, its⟩ := h.cell mem
      have ne : c.pid ≠ pid := by
        intro same
        rw [same, owned, Option.some.injEq] at its
        apply other
        cases c
        simp_all
      exact ⟨place, by rw [update_of_ne ne, its]⟩
    by_cases same : k = hashIdx task
    · subst same
      rw [update_self, nodup.mem_erase_iff] at mem
      exact old mem.2 mem.1
    · rw [update_of_ne same] at mem
      refine old mem ?_
      intro eq
      exact same ((h.cell mem).1.symm.trans (by rw [eq]))
  case once =>
    intro k
    by_cases same : k = hashIdx task
    · subst same
      rw [update_self]
      exact (h.once _).sublist (List.erase_sublist.map _)
    · rw [update_of_ne same]
      exact h.once k
  case linked =>
    intro p t its real
    have ne : p ≠ pid := by
      intro same
      rw [same, update_self] at its
      cases its
    rw [update_of_ne ne] at its
    have mem := h.linked its real
    by_cases chain : hashIdx t = hashIdx task
    · rw [chain, update_self, nodup.mem_erase_iff, ← chain]
      exact ⟨by simp [ne], mem⟩
    · rwa [update_of_ne chain]

/-- The chains need not lead to a reservation. -/
theorem reserve (h : Chains (update owner pid none) hash) (owned : owner pid = some RESERVED) :
    Chains owner hash where
  cell := by
    intro k c mem
    have ⟨place, its⟩ := h.cell mem
    have ne : c.pid ≠ pid := by
      intro same
      rw [same, update_self] at its
      cases its
    rw [update_of_ne ne] at its
    exact ⟨place, its⟩
  once := h.once
  linked := by
    intro p t its real
    have ne : p ≠ pid := by
      intro same
      rw [same, owned, Option.some.injEq] at its
      exact real its.symm
    exact h.linked (by rw [update_of_ne ne, its]) real

end Chains

namespace Tables

variable {s s' : Tables} {pid : Pid} {task : TaskPtr} {i : Nat} {slot : Slot}

/-! ## Slots -/

@[simp] theorem setSlot_hash : (s.setSlot i slot).hash = s.hash := rfl

@[simp] theorem setChain_tab {l : List Cell} : (s.setChain task l).tab = s.tab := rfl

@[simp] theorem setSlot_tab : (s.setSlot i slot).tab = update s.tab i slot := rfl

/-- The slot of a pid holds it. -/
def owner (s : Tables) (pid : Pid) : Option TaskPtr :=
  if (s.tab (idx pid)).live ≠ 0 ∧ (s.tab (idx pid)).pid = pid then some (s.tab (idx pid)).task
  else none

theorem owner_congr (h : s'.tab = s.tab) : s'.owner = s.owner := by
  funext pid
  simp only [owner, h]

theorem owner_eq_some : s.owner pid = some task ↔
    (s.tab (idx pid)).live ≠ 0 ∧ (s.tab (idx pid)).pid = pid ∧ (s.tab (idx pid)).task = task := by
  simp [owner, and_assoc]

theorem owner_of_dead (dead : (s.tab (idx pid)).live = 0) : s.owner pid = none := by
  simp [owner, dead]

/-- What the two tables keep. -/
structure Ok (s : Tables) : Prop where
  slot : ∀ {i}, (s.tab i).live ≠ 0 → 0 < i ∧ i < 255 ∧ idx (s.tab i).pid = i
  task : ∀ {i}, (s.tab i).live ≠ 0 → (s.tab i).task ≠ 0
  dead : ∀ {i}, (s.tab i).live = 0 → (s.tab i).task = 0
  chains : Chains s.owner s.hash

theorem Ok.idx_of_owner (h : s.Ok) (owned : s.owner pid = some task) :
    0 < idx pid ∧ idx pid < 255 := by
  have ⟨live, _, _⟩ := owner_eq_some.mp owned
  have ⟨low, high, _⟩ := h.slot live
  exact ⟨low, high⟩

/-- A slot that takes a pid of its own. -/
theorem owner_setSlot (live : slot.live ≠ 0) (place : idx slot.pid = i)
    (free : (s.tab i).live = 0 ∨ (s.tab i).pid = slot.pid) :
    (s.setSlot i slot).owner = update s.owner slot.pid (some slot.task) := by
  funext pid
  by_cases same : pid = slot.pid
  · subst same
    rw [update_self, owner_eq_some, place]
    simpa using live
  · rw [update_of_ne same]
    by_cases near : idx pid = i
    · have old : s.owner pid = none := by
        rw [owner, near, if_neg]
        rintro ⟨used, its⟩
        cases free with
        | inl dead => exact used dead
        | inr other => exact same (its.symm.trans other)
      rw [old, owner, near]
      simp [Ne.symm same]
    · simp only [owner, setSlot_tab, update_of_ne near]

/-- A slot that is given up. -/
theorem owner_clearSlot (dead : slot.live = 0) (held : (s.tab i).live ≠ 0 → (s.tab i).pid = pid)
    (place : idx pid = i) : (s.setSlot i slot).owner = update s.owner pid none := by
  funext p
  by_cases same : p = pid
  · subst same
    rw [update_self]
    exact owner_of_dead (by rw [place, setSlot_tab, update_self, dead])
  · rw [update_of_ne same]
    by_cases near : idx p = i
    · have old : s.owner p = none := by
        rw [owner, near, if_neg]
        rintro ⟨used, its⟩
        exact same (its.symm.trans (held used))
      rw [old, owner, near]
      simp [dead]
    · simp only [owner, setSlot_tab, update_of_ne near]

theorem Ok.setSlot {owner' : Pid → Option TaskPtr} (h : s.Ok) (tab : s'.tab = update s.tab i slot)
    (live : slot.live ≠ 0 → (0 < i ∧ i < 255 ∧ idx slot.pid = i) ∧ slot.task ≠ 0)
    (dead : slot.live = 0 → slot.task = 0) (owners : s'.owner = owner')
    (chains : Chains owner' s'.hash) : s'.Ok where
  slot := by
    intro j used
    rw [tab] at used ⊢
    by_cases same : j = i
    · subst same
      rw [update_self] at used ⊢
      exact (live used).1
    · rw [update_of_ne same] at used ⊢
      exact h.slot used
  task := by
    intro j used
    rw [tab] at used ⊢
    by_cases same : j = i
    · subst same
      rw [update_self] at used ⊢
      exact (live used).2
    · rw [update_of_ne same] at used ⊢
      exact h.task used
  dead := by
    intro j used
    rw [tab] at used ⊢
    by_cases same : j = i
    · subst same
      rw [update_self] at used ⊢
      exact dead used
    · rw [update_of_ne same] at used ⊢
      exact h.dead used
  chains := owners ▸ chains

/-! ## Services -/

theorem freeSlot_spec (free : s.freeSlot = some i) : 0 < i ∧ i < 255 ∧ (s.tab i).live = 0 := by
  have dead := List.find?_some free
  have mem := List.mem_of_find?_eq_some free
  rw [List.mem_range'_1] at mem
  exact ⟨by omega, by omega, by simpa using dead⟩

theorem Ok.assignTyped (h : s.Ok) (free : s.freeSlot = some i) (plain : type &&& MASKPID = 0)
    (real : task ≠ 0) :
    (s.assignTyped task type true).2 = nextPid (s.tab i) type i ∧
      nextPid (s.tab i) type i ≠ 0 ∧
      s.owner (nextPid (s.tab i) type i) = none ∧
      (s.assignTyped task type true).1.Ok ∧
      (s.assignTyped task type true).1.owner =
        update s.owner (nextPid (s.tab i) type i) (some task) := by
  obtain ⟨low, high, dead⟩ := freeSlot_spec free
  have place : idx (nextPid (s.tab i) type i) = i := idx_nextPid high plain
  have new : s.owner (nextPid (s.tab i) type i) = none := owner_of_dead (by rw [place, dead])
  simp only [Tables.assignTyped, free, linkTask, real, if_false, if_true]
  generalize nextPid (s.tab i) type i = pid at *
  let slot : Slot :=
    { version := nextVersion (s.tab i), task := task, pid := pid, live := (s.tab i).live + 1 }
  have live : slot.live ≠ 0 := by simp [slot, dead]
  have owners : (s.setSlot i slot).owner = update s.owner pid (some task) :=
    owner_setSlot live place (.inl dead)
  refine ⟨trivial, ne_zero_of_idx (by omega), new, ?_, (owner_congr rfl).trans owners⟩
  exact h.setSlot (rfl : _ = update s.tab i slot) (fun _ => ⟨⟨low, high, place⟩, real⟩)
    (absurd · live)
    ((owner_congr rfl).trans owners) (h.chains.append new)

theorem unlinkTask_fst : (s.unlinkTask pid task).1 =
    s.setChain task ((s.chain task).erase ⟨pid, task⟩) := by
  simp only [unlinkTask]
  split
  case isTrue => rfl
  case isFalse absent =>
    rw [List.erase_of_not_mem absent, setChain, chain, update_eq_self]

theorem Ok.rtVcRelease (h : s.Ok) (owned : s.owner pid = some task) :
    (s.rtVcRelease pid).1.Ok ∧ (s.rtVcRelease pid).1.owner = update s.owner pid none := by
  have ⟨low, high⟩ := h.idx_of_owner owned
  have ⟨_, held, its⟩ := owner_eq_some.mp owned
  have inside : ¬(idx pid = 0 ∨ idx pid = 255) := by omega
  simp only [Tables.rtVcRelease, inside, if_false, unlinkTask_fst, its]
  let slot : Slot := { s.tab (idx pid) with live := 0, task := 0, name := none }
  have owners : (s.setSlot (idx pid) slot).owner = update s.owner pid none :=
    owner_clearSlot rfl (fun _ => held) rfl
  refine ⟨?_, (owner_congr rfl).trans owners⟩
  exact h.setSlot (rfl : _ = update s.tab (idx pid) slot) (absurd rfl) (fun _ => rfl)
    ((owner_congr rfl).trans owners)
    (h.chains.erase owned)

/-- A release of a pid whose slot is not in use. -/
theorem Ok.rtVcRelease_of_dead (h : s.Ok) (dead : (s.tab (idx pid)).live = 0)
    (nameless : (s.tab (idx pid)).name = none) : (s.rtVcRelease pid).1 = s := by
  have idle := h.dead dead
  have absent : ⟨pid, 0⟩ ∉ s.chain 0 := by
    intro mem
    have owned := (h.chains.cell mem).2
    rw [owner_of_dead dead] at owned
    cases owned
  simp only [Tables.rtVcRelease, idle, unlinkTask, absent, if_false]
  split
  · rfl
  · have same : { s.tab (idx pid) with live := 0, task := 0, name := none } = s.tab (idx pid) := by
      rw [← dead, ← idle, ← nameless]
    rw [same, Tables.setSlot, update_eq_self]

theorem Ok.assignAliasName {name : Option String} {memory : Bool} (h : s.Ok) :
    (s.assignAliasName pid name memory).Ok ∧
      (s.assignAliasName pid name memory).owner = s.owner := by
  simp only [Tables.assignAliasName]
  split
  case isTrue => exact ⟨h, rfl⟩
  split
  case isFalse => exact ⟨h, rfl⟩
  let slot : Slot := { s.tab (idx pid) with name := if memory then name else none }
  have owners : (s.setSlot (idx pid) slot).owner = s.owner := by
    funext p
    by_cases same : idx p = idx pid
    · simp only [owner, same, setSlot_tab, update_self, slot]
    · simp only [owner, setSlot_tab, update_of_ne same]
  exact ⟨h.setSlot (rfl : _ = update s.tab (idx pid) slot)
    (fun live => ⟨h.slot live, h.task live⟩) h.dead owners h.chains, owners⟩

section

variable {whoami : TaskPtr} {memory : Bool}

theorem rtVcAttach_absent (absent : ⟨pid, RESERVED⟩ ∉ s.chain RESERVED) :
    s.rtVcAttach pid whoami memory = (s, -ESRCH) := by
  have err : ¬-ESRCH = 0 := by decide
  simp [rtVcAttach, unlinkTask, absent, err]

/-- The reservation's cell is lost when there is no memory for the task's. -/
theorem rtVcAttach_forgets (inside : ¬(idx pid = 0 ∨ idx pid = 255))
    (mem : ⟨pid, RESERVED⟩ ∈ s.chain RESERVED) (real : whoami ≠ 0) :
    s.rtVcAttach pid whoami false =
      (s.setChain RESERVED ((s.chain RESERVED).erase ⟨pid, RESERVED⟩), -ESRCH) := by
  have err : ¬-ENOMEM = 0 := by decide
  simp only [rtVcAttach, inside, if_false, unlinkTask, mem, if_true, linkTask, real,
    Bool.false_eq_true, err, false_and]

theorem rtVcAttach_moves (inside : ¬(idx pid = 0 ∨ idx pid = 255))
    (mem : ⟨pid, RESERVED⟩ ∈ s.chain RESERVED) (reserved : (s.tab (idx pid)).task = RESERVED)
    (real : whoami ≠ 0) :
    s.rtVcAttach pid whoami true =
      let s' := s.setChain RESERVED ((s.chain RESERVED).erase ⟨pid, RESERVED⟩)
      ((s'.setChain whoami (s'.chain whoami ++ [⟨pid, whoami⟩])).setSlot (idx pid)
        { s.tab (idx pid) with task := whoami }, 0) := by
  simp only [rtVcAttach, inside, if_false, unlinkTask, mem, if_true, linkTask, real,
    setChain_tab, reserved, and_self]

theorem Ok.rtVcAttach (h : s.Ok) (real : whoami ≠ 0) :
    (s.rtVcAttach pid whoami memory).1.Ok ∧
      (((s.rtVcAttach pid whoami memory).2 = 0 ∧ s.owner pid = some RESERVED ∧
        (s.rtVcAttach pid whoami memory).1.owner = update s.owner pid (some whoami)) ∨
      ((s.rtVcAttach pid whoami memory).2 ≠ 0 ∧
        (s.rtVcAttach pid whoami memory).1.owner = s.owner ∧
        (s.owner pid ≠ some RESERVED → (s.rtVcAttach pid whoami memory).1 = s))) := by
  have err : -ESRCH ≠ 0 := by decide
  by_cases mem : ⟨pid, RESERVED⟩ ∈ s.chain RESERVED
  · have owned : s.owner pid = some RESERVED := (h.chains.cell mem).2
    have ⟨live, held, its⟩ := owner_eq_some.mp owned
    have ⟨low, high⟩ := h.idx_of_owner owned
    have place : idx (s.tab (idx pid)).pid = idx pid := by rw [held]
    have inside : ¬(idx pid = 0 ∨ idx pid = 255) := by omega
    have erased := h.chains.erase owned
    cases memory with
    | false =>
        rw [rtVcAttach_forgets inside mem real]
        have same : (s.setChain RESERVED ((s.chain RESERVED).erase ⟨pid, RESERVED⟩)).owner =
            s.owner := owner_congr rfl
        refine ⟨⟨h.slot, h.task, h.dead, ?_⟩, .inr ⟨err, same, absurd owned⟩⟩
        rw [same]
        exact erased.reserve owned
    | true =>
        rw [rtVcAttach_moves inside mem its real]
        let slot : Slot := { s.tab (idx pid) with task := whoami }
        have owners : (s.setSlot (idx pid) slot).owner = update s.owner slot.pid (some whoami) :=
          owner_setSlot live place (.inr rfl)
        rw [show slot.pid = pid from held] at owners
        have linked := @Chains.append _ _ _ whoami erased (update_self pid none s.owner)
        rw [update_idem] at linked
        refine ⟨?_, .inl ⟨rfl, owned, (owner_congr rfl).trans owners⟩⟩
        exact h.setSlot (rfl : _ = update s.tab (idx pid) slot) (fun _ => ⟨h.slot live, real⟩)
          (absurd · live) ((owner_congr rfl).trans owners) linked
  · rw [rtVcAttach_absent mem]
    exact ⟨h, .inr ⟨err, rfl, fun _ => rfl⟩⟩

end

/-! ## Lookups -/

theorem Ok.pid2rttask (h : s.Ok)
    (current : (s.tab (idx pid)).live ≠ 0 → (s.tab (idx pid)).pid = pid) :
    s.pid2rttask pid = (s.owner pid).getD 0 := by
  by_cases live : (s.tab (idx pid)).live ≠ 0
  · have ⟨low, high, _⟩ := h.slot live
    have inside : ¬(idx pid = 0 ∨ idx pid = 255) := by omega
    rw [Tables.pid2rttask, if_neg inside, if_pos live, owner, if_pos ⟨live, current live⟩]
    rfl
  · rw [owner_of_dead (by simpa using live), Tables.pid2rttask, if_neg live]
    split <;> rfl

theorem Ok.rttask2pid (h : s.Ok) (real : task ≠ 0) (unreserved : task ≠ RESERVED) :
    (s.rttask2pid task ≠ 0 → s.owner (s.rttask2pid task) = some task) ∧
      (s.rttask2pid task = 0 → ∀ pid, s.owner pid ≠ some task) := by
  simp only [Tables.rttask2pid, real, if_false]
  cases found : (s.chain task).find? fun cell => cell.task = task with
  | none =>
      refine ⟨absurd rfl, ?_⟩
      intro _ pid owned
      have mem := h.chains.linked owned unreserved
      have other := List.find?_eq_none.mp found _ mem
      simp at other
  | some c =>
      have its : c.task = task := by simpa using List.find?_some found
      have owned := (h.chains.cell (List.mem_of_find?_eq_some found)).2
      rw [its] at owned
      refine ⟨fun _ => owned, ?_⟩
      intro zero
      exact absurd zero (ne_zero_of_idx (h.idx_of_owner owned).1)

end Tables

end Rtai.Lxrt.Identifiers
