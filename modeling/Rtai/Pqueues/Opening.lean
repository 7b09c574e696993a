import Rtai.Lib.Slots
import Rtai.Pqueues.Calls
import Mathlib.Data.Finset.Image
import Mathlib.Data.Finset.Prod

/-!
# Opening and closing

Runs of `mq_open`, `mq_close` and `mq_unlink` by any tasks.  Beside the globals a `Desk`
keeps what the calls have returned: the queues that tasks have opened and not closed, and
the names that have not been unlinked.  `queues_accounted` says that the globals are
`Accurate` about both, in every run in which no task opens a queue that it has open and
the slot for a new queue is an empty one, and in which the messages of a new queue have room in
the memory it gets.
-/

namespace Rtai.Pqueues

open Function Rtai.Lib

variable {T : Type}

/-- The first `MQ_OPEN_MAX` slots hold the ids `ids`, and `n_open_pqueues` is their number. -/
structure AccessStruct.Holds (a : AccessStruct T) (ids : Finset Nat) : Prop where
  slots : Slots MQ_OPEN_MAX INVALID_PQUEUE (fun qInd => (a.qAccess qInd).qId) ids
  number : a.nOpenPqueues = ids.card

namespace State

/-- The descriptor is in use. -/
def Exists (i : Nat) (s : State T) : Prop := (s.descr i).qId ≠ INVALID_PQUEUE

instance (i : Nat) (s : State T) : Decidable (s.Exists i) := inferInstanceAs (Decidable (_ ≠ _))

/-- The queue is there, its memory has not been freed, and the task finds it in its slots. -/
def Usable (self : T) (mq : Nat) (s : State T) : Prop :=
  (s.descr (mq - 1)).qId = mq ∧ (s.descr (mq - 1)).data.base ∈ s.allocated ∧
    ∃ t, s.pqueuesOf self = some t ∧ (slotOf mq (s.access t)).isSome

/-- `mq_open` gets as far as creating the queue. -/
def Creates (name : Name) (oflags : Oflags) (memPtr : Nat) (s : State T) : Prop :=
  s.nameToId name = none ∧ oflags.creat ∧ s.numPqueues < MAX_PQUEUES ∧
    name.length < MQ_NAME_MAX ∧ memPtr ≠ 0

instance (name : Name) (oflags : Oflags) (memPtr : Nat) (s : State T) :
    Decidable (s.Creates name oflags memPtr) :=
  inferInstanceAs (Decidable (_ ∧ _ ∧ _ ∧ _ ∧ _))

end State

/-! ## The machine -/

/-- The globals, and what the calls have returned. -/
structure Desk (T : Type) where
  pqueues : State T
  /-- The queues that tasks have opened and not closed. -/
  held : Finset (T × Nat)
  /-- The queues that were opened under a name, as long as it has not been unlinked. -/
  linked : Finset (Name × Nat)

/-- The calls of any tasks. -/
inductive Opening (T : Type) where
  | mqOpen (self : T) (name : Name) (oflags : Oflags) (permissions : Permissions)
      (mqAttr : Option MqAttr) (memPtr : Nat)
  | mqClose (self : T) (mq : Nat)
  | mqUnlink (name : Name)

variable [DecidableEq T]

/-- The queues that the task has open. -/
def heldBy (self : T) (held : Finset (T × Nat)) : Finset Nat :=
  (held.filter fun h => h.1 = self).image Prod.snd

/-- What is paired with the queue: the tasks that have it open, or its names. -/
def pairedWith {α : Type} [DecidableEq α] (mq : Nat) (pairs : Finset (α × Nat)) : Finset α :=
  (pairs.filter fun p => p.2 = mq).image Prod.fst

namespace Desk

/-- `rt_malloc` returns no block that is in use. -/
def step : Opening T → Desk T → Option (Desk T)
  | .mqOpen self name oflags permissions mqAttr memPtr, d =>
      if memPtr ∈ d.pqueues.allocated then none
      else
        let (pqueues, v) := d.pqueues.mqOpen self name oflags permissions mqAttr memPtr
        if 0 < v then
          some ⟨pqueues, insert (self, v.toNat) d.held, insert (name, v.toNat) d.linked⟩
        else some { d with pqueues := pqueues }
  | .mqClose self mq, d =>
      (d.pqueues.mqClose self mq).map fun (pqueues, v) =>
        if v = 0 then ⟨pqueues, d.held.erase (self, mq), d.linked⟩
        else { d with pqueues := pqueues }
  | .mqUnlink name, d =>
      let (pqueues, v) := d.pqueues.mqUnlink name
      if 0 ≤ v then some ⟨pqueues, d.held, d.linked.filter fun l => l.1 ≠ name⟩
      else some { d with pqueues := pqueues }

/-- No queue is open and none exists. -/
structure Initial (d : Desk T) : Prop where
  numPqueues : d.pqueues.numPqueues = 0
  descr : ∀ i, d.pqueues.descr i = {}
  access : ∀ t, d.pqueues.access t = {}
  pqueuesOf : ∀ self, d.pqueues.pqueuesOf self = none
  allocated : d.pqueues.allocated = []
  held : d.held = ∅
  linked : d.linked = ∅

/-- A task with an access structure does not open a queue that it has open, and where it
creates one the slot `n_open_pqueues` is empty.  A queue that is created is for one message at
least, and its slots are inside its memory. -/
def Orderly (d : Desk T) : Opening T → Prop
  | .mqOpen self name oflags _ mqAttr memPtr =>
      (d.pqueues.Creates name oflags memPtr →
        0 < (mqAttr.getD defaultDataQueueAttrs).mqMaxmsg ∧
          (mqAttr.getD defaultDataQueueAttrs).Narrow) ∧
      ∀ t ∈ d.pqueues.pqueuesOf self,
        (∀ qIndex ∈ d.pqueues.nameToId name, ¬(oflags.creat ∧ oflags.excl) →
          State.slotOf (d.pqueues.descr qIndex).qId (d.pqueues.access t) = none) ∧
        (d.pqueues.Creates name oflags memPtr →
          ((d.pqueues.access t).qAccess (d.pqueues.access t).nOpenPqueues.toNat).qId =
            INVALID_PQUEUE)
  | .mqClose _ _ => True
  | .mqUnlink _ => True

/-- The globals agree with what the calls have returned. -/
structure Accurate (d : Desk T) : Prop where
  /-- `q_access` holds the queues that the task has open, each in one slot, and
  `n_open_pqueues` is their number. -/
  slots : ∀ self t, d.pqueues.pqueuesOf self = some t →
    (d.pqueues.access t).Holds (heldBy self d.held)
  without : ∀ self, d.pqueues.pqueuesOf self = none → heldBy self d.held = ∅
  usable : ∀ self mq, (self, mq) ∈ d.held → d.pqueues.Usable self mq
  /-- `open_count` is the number of the tasks that have the queue open. -/
  counted : ∀ i < MAX_PQUEUES, (d.pqueues.descr i).openCount = (pairedWith (i + 1) d.held).card
  /-- A queue is deleted when its name is unlinked and no task has it open, not before. -/
  existing : ∀ i < MAX_PQUEUES, d.pqueues.Exists i ↔
    (pairedWith (i + 1) d.held).Nonempty ∨ (pairedWith (i + 1) d.linked).Nonempty
  /-- The memory of the queues that exist, and no other, is allocated. -/
  freed : ∀ p, p ∈ d.pqueues.allocated ↔
    ∃ i < MAX_PQUEUES, d.pqueues.Exists i ∧ (d.pqueues.descr i).data.base = p
  /-- A descriptor that is not in use is one that `mq_open` can take. -/
  reusable : d.pqueues.numPqueues = ((Finset.range MAX_PQUEUES).filter d.pqueues.Exists).card

end Desk

/-! ## Finite sets of pairs -/

section

variable {α : Type} [DecidableEq α] {self other : T} {a : α} {mq mq' : Nat}
  {held : Finset (T × Nat)} {pairs : Finset (α × Nat)}

@[simp] theorem mem_heldBy : mq ∈ heldBy self held ↔ (self, mq) ∈ held := by
  simp [heldBy]

@[simp] theorem mem_pairedWith : a ∈ pairedWith mq pairs ↔ (a, mq) ∈ pairs := by
  simp [pairedWith]

theorem heldBy_insert_self : heldBy self (insert (self, mq) held) = insert mq (heldBy self held) := by
  ext
  simp

theorem heldBy_insert_of_ne (ne : other ≠ self) :
    heldBy other (insert (self, mq) held) = heldBy other held := by
  ext
  simp [ne]

theorem heldBy_erase_self : heldBy self (held.erase (self, mq)) = (heldBy self held).erase mq := by
  ext
  simp

theorem heldBy_erase_of_ne (ne : other ≠ self) :
    heldBy other (held.erase (self, mq)) = heldBy other held := by
  ext
  simp [ne]

theorem pairedWith_insert_self :
    pairedWith mq (insert (a, mq) pairs) = insert a (pairedWith mq pairs) := by
  ext
  simp

theorem pairedWith_insert_of_ne (ne : mq' ≠ mq) :
    pairedWith mq' (insert (a, mq) pairs) = pairedWith mq' pairs := by
  ext
  simp [ne]

theorem pairedWith_erase_self :
    pairedWith mq (pairs.erase (a, mq)) = (pairedWith mq pairs).erase a := by
  ext
  simp

theorem pairedWith_erase_of_ne (ne : mq' ≠ mq) :
    pairedWith mq' (pairs.erase (a, mq)) = pairedWith mq' pairs := by
  ext
  simp [ne]

theorem pairedWith_filter :
    pairedWith mq (pairs.filter fun p => p.1 ≠ a) = (pairedWith mq pairs).erase a := by
  ext
  simp [and_comm]

end

/-! ## The slots of the tasks -/

namespace State

variable {qInd id : Nat} {a : AccessStruct T}

omit [DecidableEq T]

theorem slotOf_some (h : slotOf id a = some qInd) :
    qInd < MQ_OPEN_MAX ∧ (a.qAccess qInd).qId = id := by
  obtain ⟨found, within, -⟩ := List.find?_range_eq_some.mp h
  exact ⟨List.mem_range.mp within, of_decide_eq_true found⟩

theorem slotOf_none (h : slotOf id a = none) : ∀ qInd < MQ_OPEN_MAX, (a.qAccess qInd).qId ≠ id :=
  fun qInd within => by simpa using List.find?_range_eq_none.mp h qInd within

theorem qId_update {d : AccessData} : (fun i => (update a.qAccess qInd d i).qId) =
    update (fun i => (a.qAccess i).qId) qInd d.qId :=
  funext fun i => apply_update (fun _ => AccessData.qId) a.qAccess qInd d i

end State

namespace AccessStruct.Holds

omit [DecidableEq T]

variable {qInd id : Nat} {a : AccessStruct T} {ids : Finset Nat}
variable (h : a.Holds ids)
include h

theorem slotOf_eq_none (ne : id ≠ INVALID_PQUEUE) (new : id ∉ ids) : State.slotOf id a = none := by
  cases found : State.slotOf id a with
  | none => rfl
  | some i =>
      obtain ⟨hi, rfl⟩ := State.slotOf_some found
      exact absurd (h.slots.cell_mem hi ne) new

theorem slotOf_isSome (mem : id ∈ ids) : (State.slotOf id a).isSome := by
  obtain ⟨-, i, hi, rfl⟩ := h.slots.mem.mp mem
  cases found : State.slotOf (a.qAccess i).qId a with
  | none => exact absurd rfl (State.slotOf_none found i hi)
  | some j => rfl

/-- A queue is opened in an empty slot. -/
theorem opened (hi : qInd < MQ_OPEN_MAX) (free : (a.qAccess qInd).qId = INVALID_PQUEUE)
    (ne : id ≠ INVALID_PQUEUE) (new : id ∉ ids) (oflags : Oflags) : Holds { a with
      nOpenPqueues := a.nOpenPqueues + 1
      qAccess := update a.qAccess qInd { qId := id, oflags := oflags } } (insert id ids) where
  slots := by
    rw [State.qId_update]
    exact h.slots.put hi free ne new
  number := by
    rw [Finset.card_insert_of_notMem new, h.number]
    rfl

/-- A queue is closed in its slot. -/
theorem closed (hi : qInd < MQ_OPEN_MAX) (found : (a.qAccess qInd).qId = id)
    (ne : id ≠ INVALID_PQUEUE) (oflags : Oflags) :
    Holds { a with
      nOpenPqueues := a.nOpenPqueues + -1
      qAccess := update a.qAccess qInd { qId := INVALID_PQUEUE, oflags := oflags } }
      (ids.erase id) where
  slots := by
    rw [State.qId_update]
    subst found
    exact h.slots.clear hi ne
  number := by
    have mem : id ∈ ids := found ▸ h.slots.cell_mem hi (found ▸ ne)
    have pos := Finset.card_pos.mpr ⟨id, mem⟩
    dsimp only
    rw [Finset.card_erase_of_mem mem, h.number]
    omega

end AccessStruct.Holds

namespace State

variable {s s' : State T} {self : T} {t : Nat} {a : AccessStruct T} {held held' : Finset (T × Nat)}
  {pqueuesOf : T → Option Nat} {access : Nat → AccessStruct T}

/-- The access structures of the tasks hold what the tasks have open. -/
structure Accesses (held : Finset (T × Nat)) (pqueuesOf : T → Option Nat)
    (access : Nat → AccessStruct T) : Prop where
  owner : ∀ {self t}, pqueuesOf self = some t → (access t).thisTask = some self
  slots : ∀ {self t}, pqueuesOf self = some t → (access t).Holds (heldBy self held)
  without : ∀ {self}, pqueuesOf self = none → heldBy self held = ∅
  spare : ∀ {t}, (access t).thisTask = none → (access t).Holds ∅

/-- The access structure of one task changes. -/
theorem Accesses.write (ok : Accesses held pqueuesOf access) (mine : pqueuesOf self = some t)
    (holds : a.Holds (heldBy self held')) (owner : a.thisTask = some self)
    (others : ∀ other, other ≠ self → heldBy other held' = heldBy other held) :
    Accesses held' pqueuesOf (update access t a) := by
  have elsewhere {other : T} {t' : Nat} (theirs : pqueuesOf other = some t') (ne : other ≠ self) :
      t' ≠ t := by
    rintro rfl
    exact ne (Option.some.inj ((ok.owner theirs).symm.trans (ok.owner mine)))
  constructor
  · intro other t' theirs
    rcases eq_or_ne other self with rfl | ne
    · cases mine.symm.trans theirs
      rw [update_self]
      exact owner
    · rw [update_of_ne (elsewhere theirs ne)]
      exact ok.owner theirs
  · intro other t' theirs
    rcases eq_or_ne other self with rfl | ne
    · cases mine.symm.trans theirs
      rw [update_self]
      exact holds
    · rw [update_of_ne (elsewhere theirs ne), others other ne]
      exact ok.slots theirs
  · intro other theirs
    have ne : other ≠ self := by
      rintro rfl
      cases mine.symm.trans theirs
    rw [others other ne]
    exact ok.without theirs
  · intro t' unowned
    rcases eq_or_ne t' t with rfl | ne
    · rw [update_self, owner] at unowned
      cases unowned
    · rw [update_of_ne ne] at unowned ⊢
      exact ok.spare unowned

/-- A spare structure is given to a task that has none. -/
theorem Accesses.claim (ok : Accesses held pqueuesOf access) (mine : pqueuesOf self = none)
    (spare : (access t).thisTask = none) :
    Accesses held (update pqueuesOf self (some t))
      (update access t { access t with thisTask := some self }) := by
  have given {other : T} {t' : Nat} (theirs : update pqueuesOf self (some t) other = some t') :
      other = self ∧ t' = t ∨ other ≠ self ∧ t' ≠ t ∧ pqueuesOf other = some t' := by
    rcases eq_or_ne other self with rfl | ne
    · rw [update_self] at theirs
      exact .inl ⟨rfl, (Option.some.inj theirs).symm⟩
    · rw [update_of_ne ne] at theirs
      refine .inr ⟨ne, ?_, theirs⟩
      rintro rfl
      cases spare.symm.trans (ok.owner theirs)
  constructor
  · intro other t' theirs
    obtain ⟨rfl, rfl⟩ | ⟨-, ne, theirs⟩ := given theirs
    · rw [update_self]
    · rw [update_of_ne ne]
      exact ok.owner theirs
  · intro other t' theirs
    obtain ⟨rfl, rfl⟩ | ⟨-, ne, theirs⟩ := given theirs
    · rw [update_self, ok.without mine]
      exact ⟨(ok.spare spare).slots, (ok.spare spare).number⟩
    · rw [update_of_ne ne]
      exact ok.slots theirs
  · intro other theirs
    rcases eq_or_ne other self with rfl | ne
    · exact ok.without mine
    · rw [update_of_ne ne] at theirs
      exact ok.without theirs
  · intro t' unowned
    rcases eq_or_ne t' t with rfl | ne
    · rw [update_self] at unowned
      cases unowned
    · rw [update_of_ne ne] at unowned ⊢
      exact ok.spare unowned

/-- The task has an access structure, or takes a spare one. -/
theorem claimAccess_cases (h : s.claimAccess self = some (s', t)) :
    s' = s ∧ s.pqueuesOf self = some t ∨
      s.pqueuesOf self = none ∧ (s.access t).thisTask = none ∧
        s' = { s.setAccess t { s.access t with thisTask := some self } with
          zapps := update s.zapps self (some (some t)) } := by
  unfold State.claimAccess at h
  split at h
  next mine =>
    cases h
    exact .inl ⟨rfl, mine⟩
  next mine =>
    obtain ⟨t', found, e⟩ := Option.bind_eq_some_iff.mp h
    cases e
    exact .inr ⟨mine, by simpa using List.find?_some found, rfl⟩

/-- The task has its access structure, and nothing else has changed. -/
theorem Accesses.claimAccess (ok : Accesses held s.pqueuesOf s.access)
    (h : s.claimAccess self = some (s', t)) :
    Accesses held s'.pqueuesOf s'.access ∧ s'.pqueuesOf self = some t ∧ s'.descr = s.descr ∧
      s'.allocated = s.allocated ∧ s'.numPqueues = s.numPqueues := by
  obtain ⟨rfl, mine⟩ | ⟨mine, spare, rfl⟩ := claimAccess_cases h
  · exact ⟨ok, mine, rfl, rfl, rfl⟩
  · have given : (fun other => (update s.zapps self (some (some t)) other).join) =
        update s.pqueuesOf self (some t) :=
      funext fun other => apply_update (fun _ => Option.join) s.zapps self (some (some t)) other
    refine ⟨?_, ?_, rfl, rfl, rfl⟩
    · have claimed := ok.claim mine spare
      rw [← given] at claimed
      exact claimed
    · exact (congrFun given self).trans (update_self self _ _)

end State

/-! ## The descriptors -/

/-- What a descriptor can be, with the tasks that have the queue open and its names. -/
inductive MsgQueue.Phase (id : Nat) (q : MsgQueue T) (tasks : Finset T) (names : Finset Name) :
    Prop where
  | free : q.qId = INVALID_PQUEUE → q.qName = [] → q.data.base = 0 → q.openCount = 0 →
      tasks = ∅ → names = ∅ → Phase id q tasks names
  | named : q.qId = id → q.markedForDeletion = false → q.data.base ≠ 0 →
      q.openCount = tasks.card → names = {q.qName} → Phase id q tasks names
  | unlinked : q.qId = id → q.markedForDeletion = true → q.qName = [] → q.data.base ≠ 0 →
      q.openCount = tasks.card → tasks.Nonempty → names = ∅ → Phase id q tasks names

namespace MsgQueue.Phase

omit [DecidableEq T]

variable {q : MsgQueue T} {id : Nat} {tasks : Finset T} {names : Finset Name}
variable (h : q.Phase id tasks names)
include h

theorem count : q.openCount = tasks.card := by
  cases h with
  | free _ _ _ none empty =>
      rw [none, empty]
      rfl
  | named _ _ _ count => exact count
  | unlinked _ _ _ _ count => exact count

theorem exists_iff (pos : 0 < id) : q.qId ≠ INVALID_PQUEUE ↔ tasks.Nonempty ∨ names.Nonempty := by
  cases h with
  | free invalid _ _ _ empty unnamed => simp [invalid, empty, unnamed]
  | named id _ _ _ named =>
      have valid : q.qId ≠ INVALID_PQUEUE := id ▸ pos.ne'
      simp [valid, named]
  | unlinked id _ _ _ _ some =>
      have valid : q.qId ≠ INVALID_PQUEUE := id ▸ pos.ne'
      simp [valid, some]

theorem base_iff (pos : 0 < id) : q.data.base ≠ 0 ↔ q.qId ≠ INVALID_PQUEUE := by
  cases h with
  | free invalid _ zero => simp [invalid, zero]
  | named id _ base => exact iff_of_true base (id ▸ pos.ne')
  | unlinked id _ _ base => exact iff_of_true base (id ▸ pos.ne')

theorem of_name (name : q.qName ≠ []) :
    q.qId = id ∧ q.markedForDeletion = false ∧ q.data.base ≠ 0 ∧ q.openCount = tasks.card ∧
      names = {q.qName} := by
  cases h with
  | free _ empty => exact absurd empty name
  | named id marked base count named => exact ⟨id, marked, base, count, named⟩
  | unlinked _ _ empty => exact absurd empty name

theorem of_task {self : T} (mem : self ∈ tasks) : q.qId = id ∧ q.data.base ≠ 0 := by
  cases h with
  | free _ _ _ _ empty =>
      rw [empty] at mem
      cases mem
  | named id _ base => exact ⟨id, base⟩
  | unlinked id _ _ base => exact ⟨id, base⟩

end MsgQueue.Phase

namespace State

/-- The descriptors, the allocated blocks and their number. -/
structure Descriptors (held : Finset (T × Nat)) (linked : Finset (Name × Nat))
    (descr : Nat → MsgQueue T) (allocated : List Nat) (numPqueues : Nat) : Prop where
  phase : ∀ {i}, i < MAX_PQUEUES →
    (descr i).Phase (i + 1) (pairedWith (i + 1) held) (pairedWith (i + 1) linked)
  ranged : ∀ {self mq}, (self, mq) ∈ held → ∃ i < MAX_PQUEUES, mq = i + 1
  distinct : ∀ {i j}, i < MAX_PQUEUES → j < MAX_PQUEUES → (descr i).qName ≠ [] →
    (descr i).qName = (descr j).qName → i = j
  /-- `rt_free` takes the memory of the queue. -/
  sized : ∀ {i}, i < MAX_PQUEUES → (descr i).data.base ≠ 0 → (descr i).data.attrs.memSize ≠ 0
  blocks : Slots MAX_PQUEUES 0 (fun i => (descr i).data.base) allocated.toFinset
  nodup : allocated.Nodup
  number : numPqueues = allocated.length

section

variable {s s' : State T} {self : T} {i n n' memPtr : Nat} {name : Name} {q : MsgQueue T}
  {descr : Nat → MsgQueue T} {held held' : Finset (T × Nat)} {linked linked' : Finset (Name × Nat)}
  {allocated allocated' : List Nat}

section

omit [DecidableEq T]

theorem nameToId_some (h : s.nameToId name = some i) :
    i < MAX_PQUEUES ∧ (s.descr i).qName ≠ [] ∧ (s.descr i).qName = name := by
  obtain ⟨found, within, -⟩ := List.find?_range_eq_some.mp h
  exact ⟨List.mem_range.mp within, of_decide_eq_true found⟩

theorem nameToId_none (h : s.nameToId name = none) :
    ∀ i < MAX_PQUEUES, (s.descr i).qName ≠ [] → (s.descr i).qName ≠ name := by
  intro i hi ne
  simpa [ne] using List.find?_range_eq_none.mp h i hi

theorem base_update : (fun j => (update descr i q j).data.base) =
    update (fun j => (descr j).data.base) i q.data.base :=
  funext fun j => apply_update (fun _ (q : MsgQueue T) => q.data.base) descr i q j

end

/-- One descriptor is written. -/
theorem Descriptors.write (ok : Descriptors held linked descr allocated n) (hi : i < MAX_PQUEUES)
    (phase : q.Phase (i + 1) (pairedWith (i + 1) held') (pairedWith (i + 1) linked'))
    (tasks : ∀ mq, mq ≠ i + 1 → pairedWith mq held' = pairedWith mq held)
    (names : ∀ j < MAX_PQUEUES, j ≠ i →
      pairedWith (j + 1) linked' = pairedWith (j + 1) linked)
    (name : ∀ j < MAX_PQUEUES, j ≠ i → (descr j).qName ≠ [] → (descr j).qName ≠ q.qName)
    (sized : q.data.base ≠ 0 → q.data.attrs.memSize ≠ 0)
    (blocks : Slots MAX_PQUEUES 0 (update (fun j => (descr j).data.base) i q.data.base)
      allocated'.toFinset)
    (nodup : allocated'.Nodup) (number : n' = allocated'.length) :
    Descriptors held' linked' (update descr i q) allocated' n' where
  phase := by
    intro j hj
    rcases eq_or_ne j i with rfl | ne
    · rw [update_self]
      exact phase
    · rw [update_of_ne ne, tasks (j + 1) (by omega), names j hj ne]
      exact ok.phase hj
  ranged := by
    intro other mq mem
    rcases eq_or_ne mq (i + 1) with rfl | ne
    · exact ⟨i, hi, rfl⟩
    · have before : (other, mq) ∈ held := mem_pairedWith.mp (tasks mq ne ▸ mem_pairedWith.mpr mem)
      exact ok.ranged before
  distinct := by
    intro j k hj hk ne same
    rcases eq_or_ne j i with rfl | hji <;> rcases eq_or_ne k j with rfl | hkj
    · rfl
    · rw [update_self, update_of_ne hkj] at same
      rw [update_self] at ne
      exact absurd same.symm (name k hk hkj (same ▸ ne))
    · rfl
    · rw [update_of_ne hji] at ne same
      rcases eq_or_ne k i with rfl | hki
      · rw [update_self] at same
        exact absurd same (name j hj hji ne)
      · rw [update_of_ne hki] at same
        exact ok.distinct hj hk ne same
  sized := by
    intro j hj
    rcases eq_or_ne j i with rfl | ne
    · rw [update_self]
      exact sized
    · rw [update_of_ne ne]
      exact ok.sized hj
  blocks := by
    rw [base_update]
    exact blocks
  nodup := nodup
  number := number

omit [DecidableEq T] in
/-- A write that leaves the memory of the queue where it is. -/
theorem blocks_of_base {blocks : Finset Nat} (base : q.data.base = (descr i).data.base)
    (h : Slots MAX_PQUEUES 0 (fun j => (descr j).data.base) blocks) :
    Slots MAX_PQUEUES 0 (update (fun j => (descr j).data.base) i q.data.base) blocks := by
  have same := update_eq_self i fun j => (descr j).data.base
  rw [base, same]
  exact h

variable (ok : Descriptors held linked descr allocated n)
include ok

/-- The names of two queues differ. -/
theorem Descriptors.distinct_of_ne (hi : i < MAX_PQUEUES) :
    ∀ j < MAX_PQUEUES, j ≠ i → (descr j).qName ≠ [] →
      (descr j).qName ≠ (descr i).qName :=
  fun _ hj ne named same => ne (ok.distinct hj hi named same)

/-- A task opens a queue by its name. -/
theorem Descriptors.opened (hi : i < MAX_PQUEUES) (named : (descr i).qName ≠ [])
    (new : (self, i + 1) ∉ held) :
    Descriptors (insert (self, i + 1) held) (insert ((descr i).qName, i + 1) linked)
      (update descr i { descr i with openCount := (descr i).openCount + 1 }) allocated n := by
  obtain ⟨id, marked, base, count, names⟩ := (ok.phase hi).of_name named
  refine ok.write hi (.named id marked base ?_ ?_) ?_ ?_ ?_ (ok.sized hi) ?_ ok.nodup ok.number
  · rw [pairedWith_insert_self, Finset.card_insert_of_notMem (by simpa using new), count]
    rfl
  · rw [pairedWith_insert_self, names]
    exact Finset.insert_eq_of_mem (Finset.mem_singleton_self _)
  · exact fun mq ne => pairedWith_insert_of_ne ne
  · exact fun j _ ne => pairedWith_insert_of_ne (by omega)
  · exact ok.distinct_of_ne hi
  · exact blocks_of_base rfl ok.blocks

/-- A task creates a queue in a descriptor that is not in use. -/
theorem Descriptors.created (self : T) (q : MsgQueue T) (hi : i < MAX_PQUEUES)
    (invalid : (descr i).qId = INVALID_PQUEUE)
    (unused : ∀ j < MAX_PQUEUES, (descr j).qName ≠ [] → (descr j).qName ≠ q.qName)
    (nonzero : q.data.base ≠ 0) (sized : q.data.attrs.memSize ≠ 0) (fresh : q.data.base ∉ allocated)
    (id : q.qId = i + 1) (marked : q.markedForDeletion = false) (count : q.openCount = 1) :
    Descriptors (insert (self, i + 1) held) (insert (q.qName, i + 1) linked)
      (update descr i q) (q.data.base :: allocated) (n + 1) := by
  have pos : 0 < i + 1 := i.succ_pos
  have none : ¬ (_ ∨ _) := fun some => (ok.phase hi).exists_iff pos |>.mpr some invalid
  obtain ⟨tasks, names⟩ := not_or.mp none
  rw [Finset.not_nonempty_iff_eq_empty] at tasks names
  refine ok.write hi (.named id marked nonzero ?_ ?_) ?_ ?_ ?_ (fun _ => sized) ?_ ?_ ?_
  · rw [pairedWith_insert_self, tasks, count]
    rfl
  · rw [pairedWith_insert_self, names]
    rfl
  · exact fun mq ne => pairedWith_insert_of_ne ne
  · exact fun j _ ne => pairedWith_insert_of_ne (by omega)
  · exact fun j hj _ named => unused j hj named
  · have zero : (descr i).data.base = 0 := by
      by_contra used
      exact ((ok.phase hi).base_iff pos).mp used invalid
    rw [List.toFinset_cons]
    exact ok.blocks.put hi zero nonzero (by simpa using fresh)
  · exact List.nodup_cons.mpr ⟨fresh, ok.nodup⟩
  · rw [List.length_cons, ok.number]

variable (hi : i < MAX_PQUEUES)
include hi

/-- A queue that no task has open and that has no name is deleted. -/
theorem Descriptors.deleted (used : (descr i).data.base ≠ 0) (id : q.qId = INVALID_PQUEUE)
    (name : q.qName = []) (base : q.data.base = 0) (count : q.openCount = 0)
    (closed : pairedWith (i + 1) held' = ∅) (unnamed : pairedWith (i + 1) linked' = ∅)
    (tasks : ∀ mq, mq ≠ i + 1 → pairedWith mq held' = pairedWith mq held)
    (names : ∀ j < MAX_PQUEUES, j ≠ i → pairedWith (j + 1) linked' = pairedWith (j + 1) linked) :
    Descriptors held' linked' (update descr i q) (allocated.erase (descr i).data.base) (n - 1) := by
  have mem : (descr i).data.base ∈ allocated := by
    simpa using ok.blocks.cell_mem hi used
  refine ok.write hi (.free id name base count closed unnamed) tasks names ?_
    (fun used => absurd base used) ?_ (ok.nodup.erase _) ?_
  · intro j _ _ named
    rw [name]
    exact named
  · have erased : (allocated.erase (descr i).data.base).toFinset =
        allocated.toFinset.erase (descr i).data.base := by
      ext p
      simp [ok.nodup.mem_erase_iff]
    rw [base, erased]
    exact ok.blocks.clear hi used
  · rw [List.length_erase_of_mem mem, ok.number]

/-- A task closes a queue, which stays: another task has it open, or it has a name. -/
theorem Descriptors.closed (mine : (self, i + 1) ∈ held)
    (stays : ¬((descr i).openCount - 1 ≤ 0 ∧ (descr i).markedForDeletion)) (notifyTask : Option T) :
    Descriptors (held.erase (self, i + 1)) linked
      (update descr i { descr i with
        notifyTask := notifyTask, openCount := (descr i).openCount - 1 }) allocated n := by
  have mem : self ∈ pairedWith (i + 1) held := mem_pairedWith.mpr mine
  have pos := Finset.card_pos.mpr ⟨self, mem⟩
  have count : (descr i).openCount - 1 = (pairedWith (i + 1) (held.erase (self, i + 1))).card := by
    rw [pairedWith_erase_self, Finset.card_erase_of_mem mem, (ok.phase hi).count]
    omega
  refine ok.write hi ?_ (fun mq ne => pairedWith_erase_of_ne ne) (fun _ _ _ => rfl)
    (ok.distinct_of_ne hi) (ok.sized hi) (blocks_of_base rfl ok.blocks) ok.nodup ok.number
  cases ok.phase hi with
  | free _ _ _ _ empty =>
      rw [empty] at mem
      cases mem
  | named id marked base _ names => exact .named id marked base count names
  | unlinked id marked name base _ _ names =>
      refine .unlinked id marked name base count (Finset.card_pos.mp ?_) names
      have some : ¬(descr i).openCount - 1 ≤ 0 := fun none => stays ⟨none, marked⟩
      omega

/-- No task has a queue open that does not exist. -/
theorem Descriptors.unheld (invalid : (descr i).qId = INVALID_PQUEUE) :
    (self, i + 1) ∉ held := fun mem =>
  (ok.phase hi).exists_iff i.succ_pos |>.mpr (.inl ⟨self, mem_pairedWith.mpr mem⟩) invalid

/-- A name belongs to one queue. -/
theorem Descriptors.names_erase {j : Nat} (hj : j < MAX_PQUEUES) (ne : j ≠ i)
    (named : (descr i).qName ≠ []) :
    (pairedWith (j + 1) linked).erase (descr i).qName = pairedWith (j + 1) linked := by
  refine Finset.erase_eq_of_notMem fun mem => ?_
  cases ok.phase hj with
  | free _ _ _ _ _ names =>
      rw [names] at mem
      cases mem
  | named _ _ _ _ names =>
      rw [names] at mem
      exact ne (ok.distinct hi hj named (Finset.mem_singleton.mp mem)).symm
  | unlinked _ _ _ _ _ _ names =>
      rw [names] at mem
      cases mem

/-- The name of a queue is unlinked while tasks have it open. -/
theorem Descriptors.unlinked (named : (descr i).qName ≠ []) (users : (descr i).openCount > 0) :
    Descriptors held (linked.filter fun l => l.1 ≠ (descr i).qName)
      (update descr i { descr i with qName := [], markedForDeletion := true }) allocated n := by
  obtain ⟨id, -, base, count, names⟩ := (ok.phase hi).of_name named
  refine ok.write hi (.unlinked id rfl rfl base count ?_ ?_) (fun _ _ => rfl) ?_ ?_ (ok.sized hi)
    (blocks_of_base rfl ok.blocks) ok.nodup ok.number
  · rw [count] at users
    exact Finset.card_pos.mp (by omega)
  · rw [pairedWith_filter, names]
    exact Finset.erase_singleton _
  · intro j hj ne
    rw [pairedWith_filter]
    exact ok.names_erase hi hj ne named
  · exact fun _ _ _ named => named

end

/-! ## The calls -/

/-- The access structures and the descriptors are in order. -/
structure Accounted (held : Finset (T × Nat)) (linked : Finset (Name × Nat)) (s : State T) : Prop where
  accesses : Accesses held s.pqueuesOf s.access
  descriptors : Descriptors held linked s.descr s.allocated s.numPqueues

section

variable {s s' : State T} {self : T} {i t mq memPtr : Nat} {v : Int} {name : Name} {oflags : Oflags}
  {permissions : Permissions} {mqAttr : Option MqAttr} {held : Finset (T × Nat)}
  {linked : Finset (Name × Nat)}

theorem Accounted.claimAccess (ok : s.Accounted held linked) (h : s.claimAccess self = some (s', t)) :
    s'.Accounted held linked ∧ s'.pqueuesOf self = some t := by
  obtain ⟨accesses, mine, descr, allocated, number⟩ := ok.accesses.claimAccess h
  refine ⟨⟨accesses, ?_⟩, mine⟩
  rw [descr, allocated, number]
  exact ok.descriptors

/-- The first part of `mq_open` leaves the queues alone. -/
theorem Accounted.initZApps (ok : s.Accounted held linked) (self : T) :
    (s.initZApps self).Accounted held linked ∧
    (∀ other, (s.initZApps self).pqueuesOf other = s.pqueuesOf other) ∧
      (s.initZApps self).access = s.access ∧
      (s.initZApps self).descr = s.descr ∧ (s.initZApps self).allocated = s.allocated ∧
        (s.initZApps self).numPqueues = s.numPqueues := by
  have same (other : T) : (s.initZApps self).pqueuesOf other = s.pqueuesOf other := by
    unfold State.initZApps
    split
    next none =>
      rcases eq_or_ne other self with rfl | ne
      · simp [State.pqueuesOf, none]
      · simp [State.pqueuesOf, update_of_ne ne]
    next => rfl
  have rest : (s.initZApps self).access = s.access ∧ (s.initZApps self).descr = s.descr ∧
      (s.initZApps self).allocated = s.allocated ∧ (s.initZApps self).numPqueues = s.numPqueues := by
    unfold State.initZApps
    split <;> exact ⟨rfl, rfl, rfl, rfl⟩
  obtain ⟨access, descr, allocated, number⟩ := rest
  refine ⟨⟨?_, ?_⟩, same, access, descr, allocated, number⟩
  · rw [funext same, access]
    exact ok.accesses
  · rw [descr, allocated, number]
    exact ok.descriptors

omit [DecidableEq T] in
theorem access_record {qInd id : Nat} {k : Int} :
    ((s.countOpen t k).record t qInd id oflags).access = update s.access t { s.access t with
      nOpenPqueues := (s.access t).nOpenPqueues + k
      qAccess := update (s.access t).qAccess qInd { qId := id, oflags := oflags } } := by
  simp [State.record, State.countOpen, State.setAccess]

section

variable (ok : s.Accounted held linked)
include ok

/-- A task opens a queue that exists and that it has not open. -/
theorem Accounted.openExisting (found : s.nameToId name = some i)
    (new : ¬(oflags.creat ∧ oflags.excl) → (self, i + 1) ∉ held)
    (h : s.openExisting self i oflags = (s', v)) :
    v ≤ 0 ∧ s'.Accounted held linked ∨ v = (i + 1 : Nat) ∧
      s'.Accounted (insert (self, i + 1) held) (insert (name, i + 1) linked) := by
  obtain ⟨hi, named, rfl⟩ := nameToId_some found
  have failed {k : Int} (pos : 0 ≤ k) : -k ≤ 0 := by omega
  unfold State.openExisting at h
  split at h
  · cases h
    exact .inl ⟨failed (by decide), ok⟩
  next opens =>
    split at h
    · cases h
      exact .inl ⟨failed (by decide), ok⟩
    next s₁ t claimed =>
      obtain ⟨ok₁, mine⟩ := ok.claimAccess claimed
      obtain ⟨-, -, descr, allocated, number⟩ := ok.accesses.claimAccess claimed
      rw [← descr] at named ⊢
      have id := ((ok₁.descriptors.phase hi).of_name named).1
      have new' : i + 1 ∉ heldBy self held := fun mem => new opens (mem_heldBy.mp mem)
      have slots := ok₁.accesses.slots mine
      have none : slotOf (i + 1) (s₁.access t) = none :=
        slots.slotOf_eq_none i.succ_ne_zero new'
      dsimp only at h
      rw [id, none] at h
      cases spare : slotOf INVALID_PQUEUE (s₁.access t) with
      | none =>
          rw [spare] at h
          cases h
          exact .inl ⟨failed (by decide), ok₁⟩
      | some qInd =>
          rw [spare] at h
          obtain ⟨rfl, rfl⟩ := Prod.mk.inj h
          obtain ⟨within, free⟩ := slotOf_some spare
          have holds := slots.opened within free (Nat.succ_ne_zero i) new' oflags
          rw [← heldBy_insert_self] at holds
          refine .inr ⟨congrArg Nat.cast id, ?_, ?_⟩
          · have written := ok₁.accesses.write mine holds (ok₁.accesses.owner mine)
              fun _ => heldBy_insert_of_ne
            rw [← access_record] at written
            exact written
          · exact ok₁.descriptors.opened hi named fun mem => new' (mem_heldBy.mpr mem)

/-- The slot `n_open_pqueues` is there and empty, for a task that has just got its slots too. -/
theorem Accounted.claimed_slot (claimed : s.claimAccess self = some (s', t))
    (room : ¬((s.pqueuesOf self).isSome ∧ (s.access t).nOpenPqueues ≥ MQ_OPEN_MAX))
    (spare : s.pqueuesOf self = some t →
      ((s.access t).qAccess (s.access t).nOpenPqueues.toNat).qId = INVALID_PQUEUE) :
    (s'.access t).nOpenPqueues.toNat < MQ_OPEN_MAX ∧
      ((s'.access t).qAccess (s'.access t).nOpenPqueues.toNat).qId = INVALID_PQUEUE := by
  obtain ⟨rfl, mine⟩ | ⟨-, unowned, rfl⟩ := claimAccess_cases claimed
  · have few : (s'.access t).nOpenPqueues < MQ_OPEN_MAX :=
      not_le.mp fun many => room ⟨Option.isSome_iff_exists.mpr ⟨t, mine⟩, many⟩
    refine ⟨?_, spare mine⟩
    have positive : 0 < (MQ_OPEN_MAX : Int) := by decide
    omega
  · have holds := ok.accesses.spare unowned
    have number := holds.number
    simp only [State.setAccess, update_self, number]
    refine ⟨by decide, ?_⟩
    by_contra used
    exact absurd (holds.slots.cell_mem (i := 0) (by decide) used) (Finset.notMem_empty _)

/-- A task creates a queue, with an empty slot for it. -/
theorem Accounted.openNew (new : s.nameToId name = none) (fresh : memPtr ∉ s.allocated)
    (sized : s.numPqueues < MAX_PQUEUES → name.length < MQ_NAME_MAX → memPtr ≠ 0 →
      (mqAttr.getD defaultDataQueueAttrs).memSize ≠ 0)
    (spare : ∀ t ∈ s.pqueuesOf self, s.numPqueues < MAX_PQUEUES → name.length < MQ_NAME_MAX →
      memPtr ≠ 0 → ((s.access t).qAccess (s.access t).nOpenPqueues.toNat).qId = INVALID_PQUEUE)
    (h : s.openNew self name oflags permissions mqAttr memPtr = (s', v)) :
    v ≤ 0 ∧ s'.Accounted held linked ∨ ∃ id : Nat, 0 < id ∧ v = id ∧
      s'.Accounted (insert (self, id) held) (insert (name, id) linked) := by
  have failed {k : Int} (pos : 0 ≤ k) : -k ≤ 0 := by omega
  unfold State.openNew at h
  split at h
  · cases h
    exact .inl ⟨failed (by decide), ok⟩
  next few =>
  split at h
  · cases h
    exact .inl ⟨failed (by decide), ok⟩
  next short =>
  split at h
  · cases h
    exact .inl ⟨failed (by decide), ok⟩
  next s₁ t claimed =>
  obtain ⟨ok₁, mine⟩ := ok.claimAccess claimed
  obtain ⟨-, -, descr, allocated, number⟩ := ok.accesses.claimAccess claimed
  split at h
  · cases h
    exact .inl ⟨failed (by decide), ok⟩
  next room =>
  split at h
  · cases h
    exact .inl ⟨failed (by decide), ok₁⟩
  next i found =>
  split at h
  · cases h
    exact .inl ⟨failed (by decide), ok₁⟩
  next nonzero =>
  obtain ⟨invalid, within, -⟩ := List.find?_range_eq_some.mp found
  replace invalid : (s₁.descr i).qId = INVALID_PQUEUE := by
    rw [descr]
    exact of_decide_eq_true invalid
  have hi := List.mem_range.mp within
  obtain ⟨within, free⟩ := ok.claimed_slot claimed room fun mine =>
    spare t mine (not_le.mp few) (not_le.mp short) nonzero
  have unused := nameToId_none new
  rw [← descr] at unused
  rw [← allocated] at fresh
  obtain ⟨rfl, rfl⟩ := Prod.mk.inj h
  have unheld : i + 1 ∉ heldBy self held := fun mem =>
    ok₁.descriptors.unheld hi invalid (mem_heldBy.mp mem)
  have holds := (ok₁.accesses.slots mine).opened within free (Nat.succ_ne_zero i) unheld oflags
  rw [← heldBy_insert_self] at holds
  refine .inr ⟨i + 1, i.succ_pos, ?_, ?_, ?_⟩
  · simp [State.record, State.countOpen, State.setAccess, State.createQueue,
      State.setDescr]
  · have written := ok₁.accesses.write mine holds (ok₁.accesses.owner mine)
      fun _ => heldBy_insert_of_ne
    rw [← access_record] at written
    exact written
  · have created := ok₁.descriptors.created self
      { s₁.descr i with
        owner := some self
        openCount := 1
        qName := name
        qId := i + 1
        markedForDeletion := false
        data := { base := memPtr, head := memPtr, tail := memPtr,
                  attrs := { mqAttr.getD defaultDataQueueAttrs with mqCurmsgs := 0 } }
        permissions := permissions }
      hi invalid unused nonzero (sized (not_le.mp few) (not_le.mp short) nonzero) fresh rfl rfl rfl
    simpa [State.record, State.countOpen, State.setAccess, State.createQueue, State.setDescr]
      using created

theorem Accounted.mqOpen (fresh : memPtr ∉ s.allocated)
    (closed : ∀ i, s.nameToId name = some i → ¬(oflags.creat ∧ oflags.excl) → (self, i + 1) ∉ held)
    (sized : s.Creates name oflags memPtr → (mqAttr.getD defaultDataQueueAttrs).memSize ≠ 0)
    (spare : ∀ t ∈ s.pqueuesOf self, s.Creates name oflags memPtr →
      ((s.access t).qAccess (s.access t).nOpenPqueues.toNat).qId = INVALID_PQUEUE)
    (h : s.mqOpen self name oflags permissions mqAttr memPtr = (s', v)) :
    v ≤ 0 ∧ s'.Accounted held linked ∨ ∃ id : Nat, 0 < id ∧ v = id ∧
      s'.Accounted (insert (self, id) held) (insert (name, id) linked) := by
  obtain ⟨ok₁, same, access, descr, allocated, number⟩ := ok.initZApps self
  have lookup : (s.initZApps self).nameToId name = s.nameToId name := by
    simp only [State.nameToId, descr]
  unfold State.mqOpen at h
  dsimp only at h
  split at h
  next i found =>
    refine (ok₁.openExisting found (closed i (lookup ▸ found)) h).imp_right fun ⟨id, ok'⟩ => ?_
    exact ⟨i + 1, i.succ_pos, id, ok'⟩
  next new =>
    split at h
    next creat =>
      refine ok₁.openNew new (allocated ▸ fresh) ?_ ?_ h
      · rw [number]
        exact fun few short nonzero => sized ⟨lookup ▸ new, creat, few, short, nonzero⟩
      · rw [same, access, number]
        exact fun t mine few short nonzero =>
          spare t mine ⟨lookup ▸ new, creat, few, short, nonzero⟩
    next =>
      cases h
      exact .inl ⟨by decide, ok₁⟩

end

/-- The last task closes a queue whose name is unlinked. -/
theorem Descriptors.last (ok : Descriptors held linked s.descr s.allocated s.numPqueues)
    (hi : i < MAX_PQUEUES) (mine : (self, i + 1) ∈ held)
    (last : (s.descr i).openCount - 1 ≤ 0 ∧ (s.descr i).markedForDeletion) :
    (s.descr i).data.base ≠ 0 ∧ pairedWith (i + 1) (held.erase (self, i + 1)) = ∅ ∧
      pairedWith (i + 1) linked = ∅ := by
  have mem : self ∈ pairedWith (i + 1) held := mem_pairedWith.mpr mine
  refine ⟨((ok.phase hi).of_task mem).2, ?_, ?_⟩
  · rw [pairedWith_erase_self, ← Finset.card_eq_zero, Finset.card_erase_of_mem mem]
    have count := (ok.phase hi).count
    omega
  · cases ok.phase hi with
    | free _ _ _ _ empty =>
        rw [empty] at mem
        cases mem
    | named _ unmarked => cases unmarked.symm.trans last.2
    | unlinked _ _ _ _ _ _ names => exact names

/-- `mq_close` behind the write of the slot. -/
theorem Descriptors.release (ok : Descriptors held linked s.descr s.allocated s.numPqueues)
    (accesses : Accesses (held.erase (self, i + 1)) s.pqueuesOf s.access) (hi : i < MAX_PQUEUES)
    (mine : (self, i + 1) ∈ held) {q : MsgQueue T} {notifyTask : Option T}
    (written : q = { s.descr i with
      notifyTask := notifyTask, openCount := (s.descr i).openCount - 1 }) :
    State.Accounted (held.erase (self, i + 1)) linked
      (if q.openCount ≤ 0 ∧ q.markedForDeletion then (s.setDescr i q).deleteQueue i
        else s.setDescr i q) := by
  subst written
  split
  next last =>
    obtain ⟨base, closed, unnamed⟩ := ok.last hi mine last
    refine ⟨accesses, ?_⟩
    simp only [State.deleteQueue, State.setDescr, update_idem, update_self]
    rw [if_neg (ok.sized hi base)]
    exact ok.deleted hi base rfl rfl rfl rfl closed unnamed
      (fun mq ne => pairedWith_erase_of_ne ne) fun _ _ _ => rfl
  next stays => exact ⟨accesses, ok.closed hi mine stays notifyTask⟩

theorem Accounted.mqClose (ok : s.Accounted held linked) (h : s.mqClose self mq = some (s', v)) :
    v ≠ 0 ∧ s' = s ∨ v = 0 ∧ s'.Accounted (held.erase (self, mq)) linked := by
  have failed : (-EINVAL : Int) ≠ 0 := by decide
  unfold State.mqClose at h
  split at h
  next range =>
    split at h
    · cases h
    · cases h
      exact .inl ⟨failed, rfl⟩
    next t zapps =>
      have mine : s.pqueuesOf self = some t := by
        rw [State.pqueuesOf, zapps]
        rfl
      split at h
      · cases h
        exact .inl ⟨failed, rfl⟩
      next qInd found =>
        obtain ⟨i, rfl⟩ : ∃ i, mq = i + 1 := ⟨mq - 1, by omega⟩
        have hi : i < MAX_PQUEUES := range.2
        obtain ⟨within, id⟩ := slotOf_some found
        have slots := ok.accesses.slots mine
        have mem : (self, i + 1) ∈ held :=
          mem_heldBy.mp (id ▸ slots.slots.cell_mem within (id ▸ Nat.succ_ne_zero i))
        have holds := slots.closed within id (Nat.succ_ne_zero i) ((s.access t).qAccess qInd).oflags
        rw [← heldBy_erase_self] at holds
        have written := ok.accesses.write mine holds (ok.accesses.owner mine)
          fun _ => heldBy_erase_of_ne
        rw [← access_record] at written
        obtain ⟨rfl, rfl⟩ := Prod.mk.inj (Option.some.inj h)
        refine .inr ⟨rfl, ?_⟩
        rw [Nat.add_sub_cancel]
        exact Descriptors.release
          (s := (s.countOpen t (-1)).record t qInd INVALID_PQUEUE ((s.access t).qAccess qInd).oflags)
          ok.descriptors written hi mem rfl
  next =>
    cases h
    exact .inl ⟨failed, rfl⟩

theorem Accounted.mqUnlink (ok : s.Accounted held linked) (h : s.mqUnlink name = (s', v)) :
    v < 0 ∧ s' = s ∨ 0 ≤ v ∧ s'.Accounted held (linked.filter fun l => l.1 ≠ name) := by
  unfold State.mqUnlink at h
  split at h
  next =>
    cases h
    exact .inl ⟨by decide, rfl⟩
  next i found =>
    obtain ⟨hi, named, rfl⟩ := nameToId_some found
    dsimp only at h
    split at h
    next users =>
      cases h
      exact .inr ⟨users.le, ok.accesses, ok.descriptors.unlinked hi named users⟩
    next unused =>
      obtain ⟨-, -, base, count, names⟩ := (ok.descriptors.phase hi).of_name named
      have none : pairedWith (i + 1) held = ∅ := by
        rw [← Finset.card_eq_zero]
        omega
      cases h
      refine .inr ⟨le_rfl, ok.accesses, ?_⟩
      rw [State.deleteQueue]
      dsimp only
      rw [if_neg (ok.descriptors.sized hi base)]
      refine ok.descriptors.deleted hi base rfl rfl rfl rfl none ?_ (fun _ _ => rfl) fun j hj ne => ?_
      · rw [pairedWith_filter, names]
        exact Finset.erase_singleton _
      · rw [pairedWith_filter]
        exact ok.descriptors.names_erase hi hj ne named

end

end State

/-! ## Runs -/

namespace Desk

variable {d d' : Desk T} {e : Opening T} {tr : List (Record (Desk T) (Opening T))}

/-- The globals are in order for what the calls have returned. -/
def Ok (d : Desk T) : Prop := d.pqueues.Accounted d.held d.linked

theorem Initial.ok (h : d.Initial) : d.Ok where
  accesses := by
    refine ⟨?_, ?_, ?_, ?_⟩
    · intro self t mine
      cases (h.pqueuesOf self).symm.trans mine
    · intro self t mine
      cases (h.pqueuesOf self).symm.trans mine
    · intro self _
      rw [h.held]
      rfl
    · intro t _
      rw [h.access]
      exact ⟨.clean fun _ _ => rfl, rfl⟩
  descriptors := by
    refine ⟨?_, ?_, ?_, ?_, ?_, ?_, ?_⟩
    · intro i _
      rw [h.descr, h.held, h.linked]
      exact .free rfl rfl rfl rfl rfl rfl
    · intro other mq mem
      rw [h.held] at mem
      cases mem
    · intro i j _ _ named
      rw [h.descr] at named
      exact absurd rfl named
    · intro i _ used
      rw [h.descr] at used
      exact absurd rfl used
    · rw [h.allocated]
      refine .clean fun i _ => ?_
      rw [h.descr]
    · rw [h.allocated]
      exact List.nodup_nil
    · rw [h.allocated, h.numPqueues]
      rfl

theorem Ok.step (ok : d.Ok) (orderly : d.Orderly e) (h : step e d = some d') : d'.Ok := by
  cases e with
  | mqOpen self name oflags permissions mqAttr memPtr =>
      simp only [Desk.step] at h
      split at h
      · cases h
      next fresh =>
        have closed (i : Nat) (found : d.pqueues.nameToId name = some i)
            (opens : ¬(oflags.creat ∧ oflags.excl)) : (self, i + 1) ∉ d.held := by
          intro mem
          cases mine : d.pqueues.pqueuesOf self with
          | none =>
              have none := ok.accesses.without mine
              rw [← mem_heldBy, none] at mem
              cases mem
          | some t =>
              obtain ⟨hi, named, -⟩ := State.nameToId_some found
              have free := (orderly.2 t mine).1 i found opens
              rw [((ok.descriptors.phase hi).of_name named).1] at free
              have taken := (ok.accesses.slots mine).slotOf_isSome (mem_heldBy.mpr mem)
              rw [free] at taken
              cases taken
        cases result : d.pqueues.mqOpen self name oflags permissions mqAttr memPtr with | mk s' v =>
        rw [result] at h
        dsimp only at h
        have sized (creates : d.pqueues.Creates name oflags memPtr) :
            (mqAttr.getD defaultDataQueueAttrs).memSize ≠ 0 := by
          obtain ⟨some, narrow⟩ := orderly.1 creates
          obtain ⟨size, enough⟩ := narrow.memSize
          have slot : 0 < (mqAttr.getD defaultDataQueueAttrs).slotSize := Nat.succ_pos _
          have positive := Nat.mul_pos slot some
          omega
        rcases ok.mqOpen fresh closed sized (fun t mine => (orderly.2 t mine).2) result with
          ⟨failed, ok'⟩ | ⟨id, pos, rfl, ok'⟩
        · rw [if_neg (not_lt.mpr failed)] at h
          cases h
          exact ok'
        · rw [if_pos (Int.natCast_pos.mpr pos)] at h
          cases h
          exact ok'
  | mqClose self mq =>
      obtain ⟨⟨s', v⟩, closed, rfl⟩ := Option.map_eq_some_iff.mp h
      dsimp only
      rcases ok.mqClose closed with ⟨failed, rfl⟩ | ⟨rfl, ok'⟩
      · rw [if_neg failed]
        exact ok
      · exact ok'
  | mqUnlink name =>
      simp only [Desk.step] at h
      cases result : d.pqueues.mqUnlink name with | mk s' v =>
      rw [result] at h
      dsimp only at h
      rcases ok.mqUnlink result with ⟨failed, rfl⟩ | ⟨unlinked, ok'⟩
      · rw [if_neg (not_le.mpr failed)] at h
        cases h
        exact ok
      · rw [if_pos unlinked] at h
        cases h
        exact ok'

theorem Ok.accurate (ok : d.Ok) : d.Accurate where
  slots := fun _ _ => ok.accesses.slots
  without := fun _ => ok.accesses.without
  usable := by
    intro self mq mem
    obtain ⟨i, hi, rfl⟩ := ok.descriptors.ranged mem
    obtain ⟨id, base⟩ := (ok.descriptors.phase hi).of_task (mem_pairedWith.mpr mem)
    refine ⟨id, List.mem_toFinset.mp (ok.descriptors.blocks.cell_mem hi base), ?_⟩
    cases mine : d.pqueues.pqueuesOf self with
    | none =>
        rw [← mem_heldBy, ok.accesses.without mine] at mem
        cases mem
    | some t => exact ⟨t, rfl, (ok.accesses.slots mine).slotOf_isSome (mem_heldBy.mpr mem)⟩
  counted := fun _ hi => (ok.descriptors.phase hi).count
  existing := fun i hi => (ok.descriptors.phase hi).exists_iff i.succ_pos
  freed := by
    intro p
    rw [← List.mem_toFinset, ok.descriptors.blocks.mem]
    constructor
    · rintro ⟨used, i, hi, rfl⟩
      exact ⟨i, hi, ((ok.descriptors.phase hi).base_iff i.succ_pos).mp used, rfl⟩
    · rintro ⟨i, hi, used, rfl⟩
      exact ⟨((ok.descriptors.phase hi).base_iff i.succ_pos).mpr used, i, hi, rfl⟩
  reusable := by
    rw [ok.descriptors.number, ← List.toFinset_card_of_nodup ok.descriptors.nodup,
      ← ok.descriptors.blocks.card_used]
    refine congrArg Finset.card (Finset.filter_congr fun i hi => ?_)
    exact (ok.descriptors.phase (Finset.mem_range.mp hi)).base_iff i.succ_pos

/-- Each task's slots and each queue's count of users are right, and a queue lives as long as
it has a name or a user, when no task opens a queue twice, the slot for a new queue is
empty and its messages have room in its memory. -/
theorem queues_accounted {d₀ : Desk T} (initial : d₀.Initial) (run : Run step Orderly d₀ tr d) :
    d.Accurate :=
  (run.invariant (P := Ok) initial.ok Ok.step).accurate

instance (d : Desk T) : ∀ e, Decidable (d.Orderly e)
  | .mqOpen self name oflags _ mqAttr memPtr =>
      inferInstanceAs (Decidable ((d.pqueues.Creates name oflags memPtr →
        0 < (mqAttr.getD defaultDataQueueAttrs).mqMaxmsg ∧
          (_ < _ ∧ _ ≤ _)) ∧ ∀ t ∈ d.pqueues.pqueuesOf self,
        (∀ qIndex ∈ d.pqueues.nameToId name, ¬(oflags.creat ∧ oflags.excl) →
          State.slotOf (d.pqueues.descr qIndex).qId (d.pqueues.access t) = none) ∧
        (d.pqueues.Creates name oflags memPtr →
          ((d.pqueues.access t).qAccess (d.pqueues.access t).nOpenPqueues.toNat).qId =
            INVALID_PQUEUE)))
  | .mqClose _ _ => inferInstanceAs (Decidable True)
  | .mqUnlink _ => inferInstanceAs (Decidable True)

/-- No queue exists. -/
def none : Desk Bool := ⟨{}, ∅, ∅⟩

theorem none_initial : none.Initial :=
  ⟨rfl, fun _ => rfl, fun _ => rfl, fun _ => rfl, rfl, rfl, rfl⟩

/-- A task creates a queue under a name of one letter. -/
def creates (self : Bool) (letter : UInt8) (memPtr : Nat) : Opening Bool :=
  .mqOpen self [letter] { rdwr := true, creat := true } {} Option.none memPtr

/-- A second task opens the queue, the name is unlinked, and the second one to close deletes it. -/
theorem queues_accounted_last : ∃ tr d, Run step Orderly none tr d ∧ d.Accurate ∧
    d.held.card = 0 ∧ d.pqueues.allocated = [] := by
  obtain ⟨tr, d, run, test⟩ := Run.of_execute step Orderly none
    [creates false 1 5, creates true 1 6, .mqUnlink [1], .mqClose false 1, .mqClose true 1]
    (fun d => d.held.card = 0 ∧ d.pqueues.allocated = []) (by decide)
  exact ⟨tr, d, run, queues_accounted none_initial run, of_decide_eq_true test⟩

/-- A task closes the first of two queues and creates a third one, which takes the slot of the
second. -/
theorem slot_overwritten :
    ∃ tr d, Run step (fun _ _ => True) none tr d ∧ ¬d.Accurate := by
  obtain ⟨tr, d, run, test⟩ := Run.of_execute step (fun _ _ => True) none
    [creates true 1 5, creates true 2 6, .mqClose true 1, creates true 3 7]
    (fun d => (true, 2) ∈ d.held ∧ d.pqueues.pqueuesOf true = some 0 ∧
      State.slotOf 2 (d.pqueues.access 0) = Option.none) (by decide)
  obtain ⟨mem, mine, lost⟩ := of_decide_eq_true test
  refine ⟨tr, d, run, fun accurate => ?_⟩
  obtain ⟨-, -, t, mine', found⟩ := accurate.usable true 2 mem
  cases mine.symm.trans mine'
  rw [lost] at found
  cases found

end Desk

end Rtai.Pqueues
