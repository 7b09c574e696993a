import Rtai.Lib.Run
import Mathlib.Data.List.Range

/-!
# The registry

`registry.c`, for any number of tasks, each call divided into its locked sections:
`rt_register` looks for the name with `get_adr`, gives `list_lock` back, and writes a free
slot in `registr`, whatever has come in between.

`registry_consistent` says that no name is twice in the list exactly as long as no `registr`
finds its name in it and a free slot.
-/

namespace Rtai.Lxrt.Registry

open Function Rtai.Lib

def MAX_SLOTS : Nat := 100

/-- What `registr` reads of a `struct task_struct`. -/
structure TaskStruct where
  adr : Nat
  pid : Int

/-- `struct rt_registry_entry_struct`. -/
structure Entry where
  name : Nat := 0
  adr : Nat := 0
  tsk : Option TaskStruct := none
  pid : Int := 0
  type : Int := 0

/-- The arguments of `rt_register`. -/
structure Request where
  name : Nat
  adr : Nat
  type : Int := 0
  tsk : Option TaskStruct := none

/-! ## The locked sections -/

/-- The slots that the loops go through.  Slot 0 is reserved for the null slot. -/
def slots : List Nat := List.range' 1 MAX_SLOTS

/-- The first slot that passes the test of a loop. -/
def slotOf (test : Entry → Bool) (lxrtList : Nat → Entry) : Option Nat :=
  slots.find? fun slot => test (lxrtList slot)

/-- `registr`, with the slot that it returns. -/
def registr (r : Request) (lxrtList : Nat → Entry) : (Nat → Entry) × Nat :=
  match slotOf (fun e => e.name == 0) lxrtList with
  | some slot =>
      (update lxrtList slot
        { name := r.name, adr := r.adr, tsk := r.tsk, pid := r.tsk.elim 0 TaskStruct.pid,
          type := r.type }, slot)
  | none => (lxrtList, 0)

/-- `drg_on_name` and `drg_on_adr`, which differ in the test. -/
def drgOn (test : Entry → Bool) (lxrtList : Nat → Entry) : (Nat → Entry) × Nat :=
  match slotOf test lxrtList with
  | some slot => (update lxrtList slot (lxrtList 0), slot)
  | none => (lxrtList, 0)

def drgOnName (name : Nat) : (Nat → Entry) → (Nat → Entry) × Nat := drgOn fun e => e.name == name

def drgOnAdr (adr : Nat) : (Nat → Entry) → (Nat → Entry) × Nat := drgOn fun e => e.adr == adr

/-- `get_adr`, with the read of `adr`, which it makes just behind the section. -/
def getAdr (name : Nat) (lxrtList : Nat → Entry) : Nat :=
  match slotOf (fun e => e.name == name) lxrtList with
  | some slot => (lxrtList slot).adr
  | none => 0

/-! ## The machine -/

/-- The list, and the calls of `rt_register` that are between their sections. -/
structure State (T : Type) where
  lxrtList : Nat → Entry
  call : T → Option Request

/-- The calls, up to the end of a locked section. -/
inductive Event (T : Type) where
  /-- `rt_register`, in `get_adr`. -/
  | rtRegister (self : T) (r : Request)
  /-- `rt_register`, in `registr`. -/
  | registr (self : T)
  | rtDrgOnName (name : Nat)
  | rtDrgOnAdr (adr : Nat)

variable {T : Type} [DecidableEq T]

/-- Names and addresses are not 0. -/
def step : Event T → State T → Option (State T)
  | .rtRegister self r, s =>
      if s.call self = none ∧ r.name ≠ 0 ∧ r.adr ≠ 0 then
        if getAdr r.name s.lxrtList ≠ 0 then some s
        else some { s with call := update s.call self (some r) }
      else none
  | .registr self, s =>
      match s.call self with
      | some r =>
          some { lxrtList := (registr r s.lxrtList).1, call := update s.call self none }
      | none => none
  | .rtDrgOnName name, s =>
      if name ≠ 0 then some { s with lxrtList := (drgOnName name s.lxrtList).1 } else none
  | .rtDrgOnAdr adr, s =>
      if adr ≠ 0 then some { s with lxrtList := (drgOnAdr adr s.lxrtList).1 } else none

/-- An empty list, and no call. -/
structure Initial (s : State T) : Prop where
  empty : ∀ slot, s.lxrtList slot = {}
  call : ∀ t, s.call t = none

/-- The slot that a call of `rt_register` with the name returns in a step. -/
def returned (name : Nat) (r : Record (State T) (Event T)) : Option Nat :=
  match r.event with
  | .rtRegister _ req =>
      if req.name = name ∧ getAdr name r.pre.lxrtList ≠ 0 then some 0 else none
  | .registr self =>
      (r.pre.call self).bind fun req =>
        if req.name = name then some (registr req r.pre.lxrtList).2 else none
  | .rtDrgOnName _ | .rtDrgOnAdr _ => none

/-- The name that a step deregisters. -/
def deregistered (r : Record (State T) (Event T)) : Option Nat :=
  match r.event with
  | .rtDrgOnName name => (slotOf (fun e => e.name == name) r.pre.lxrtList).map fun _ => name
  | .rtDrgOnAdr adr =>
      (slotOf (fun e => e.adr == adr) r.pre.lxrtList).map fun slot => (r.pre.lxrtList slot).name
  | .rtRegister _ _ | .registr _ => none

/-- The address that a step registers under the name. -/
def registered (name : Nat) (r : Record (State T) (Event T)) : Option Nat :=
  match r.event with
  | .registr self =>
      (r.pre.call self).bind fun req =>
        if req.name = name ∧ (registr req r.pre.lxrtList).2 ≠ 0 then some req.adr else none
  | .rtRegister _ _ | .rtDrgOnName _ | .rtDrgOnAdr _ => none

/-- The address that was registered last under the name and has not been deregistered, or 0. -/
def lastRegistered (name : Nat) (trace : List (Record (State T) (Event T))) : Nat :=
  trace.foldl (fun adr r => (registered name r).getD
    (if deregistered r = some name then 0 else adr)) 0

/-- No two slots hold the same name. -/
def Unique (lxrtList : Nat → Entry) : Prop :=
  ∀ i ∈ slots, ∀ j ∈ slots, (lxrtList i).name ≠ 0 → (lxrtList i).name = (lxrtList j).name → i = j

/-- There is a slot for a new name. -/
def Room (lxrtList : Nat → Entry) : Prop := ∃ slot ∈ slots, (lxrtList slot).name = 0

/-- What `registr` writes is not in the list, or there is no room for it. -/
def InTime (s : State T) : Event T → Prop
  | .registr self =>
      ∀ r ∈ s.call self, Room s.lxrtList → ∀ slot ∈ slots, (s.lxrtList slot).name ≠ r.name
  | _ => True

/-- While a name that is not registered at first is not deregistered, and `registr` finds room
for it, one of the calls of `rt_register` with it that return has a slot. -/
def OneReturns (trace : List (Record (State T) (Event T))) : Prop :=
  ∀ before during name, trace = before ++ during → name ≠ 0 → lastRegistered name before = 0 →
    (∀ r ∈ during, deregistered r ≠ some name) →
    (∀ r ∈ during, ∀ self, r.event = .registr self → ∀ req ∈ r.pre.call self, req.name = name →
      Room r.pre.lxrtList) →
    during.filterMap (returned name) ≠ [] →
    (during.filterMap (returned name)).countP (· ≠ 0) = 1

/-! ## The loops -/

section

variable {l l' : Nat → Entry} {i name adr : Nat} {test : Entry → Bool} {req : Request}

theorem slotOf_spec (h : slotOf test l = some i) : i ∈ slots ∧ test (l i) = true :=
  ⟨List.mem_of_find?_eq_some h, List.find?_some (p := fun slot => test (l slot)) h⟩

theorem slotOf_none : slotOf test l = none ↔ ∀ i ∈ slots, test (l i) = false := by
  rw [slotOf, List.find?_eq_none]
  simp

theorem zero_not_slot (mem : i ∈ slots) : i ≠ 0 := by
  rintro rfl
  simp [slots] at mem

/-- The list holds the name. -/
def Holds (name : Nat) (l : Nat → Entry) : Prop := ∃ i ∈ slots, (l i).name = name

theorem slotOf_name_none : slotOf (fun e => e.name == name) l = none ↔ ¬Holds name l := by
  rw [slotOf_none]
  simp [Holds]

/-- The slot of a name that is there once. -/
theorem slotOf_name (unique : Unique l) (named : name ≠ 0) (mem : i ∈ slots)
    (here : (l i).name = name) : slotOf (fun e => e.name == name) l = some i := by
  cases found : slotOf (fun e => e.name == name) l with
  | none => exact absurd ⟨i, mem, here⟩ (slotOf_name_none.mp found)
  | some j =>
      obtain ⟨mem', there⟩ := slotOf_spec found
      have there : (l j).name = name := eq_of_beq there
      rw [unique j mem' i mem (there.trans_ne named) (there.trans here.symm)]

theorem getAdr_of_not_holds (out : ¬Holds name l) : getAdr name l = 0 := by
  rw [getAdr, slotOf_name_none.mpr out]

theorem getAdr_of_slot (unique : Unique l) (some : name ≠ 0) (mem : i ∈ slots)
    (here : (l i).name = name) : getAdr name l = (l i).adr := by
  rw [getAdr, slotOf_name unique some mem here]

/-- A write to a slot that neither has nor had the name. -/
theorem getAdr_congr {e : Entry} (before : (l i).name ≠ name) (after : e.name ≠ name) :
    getAdr name (update l i e) = getAdr name l := by
  have test : (fun slot => ((update l i e) slot).name == name) = fun slot => (l slot).name == name := by
    funext slot
    rcases eq_or_ne slot i with rfl | ne
    · simp [before, after]
    · simp [ne]
  have slot : slotOf (fun e => e.name == name) (update l i e) = slotOf (fun e => e.name == name) l :=
    congrArg (List.find? · slots) test
  unfold getAdr
  rw [slot]
  cases found : slotOf (fun e => e.name == name) l with
  | none => rfl
  | some j =>
      have here : (l j).name = name := eq_of_beq (slotOf_spec found).2
      have ne : j ≠ i := by
        rintro rfl
        exact before here
      dsimp only
      rw [update_of_ne ne]

/-- What the sections keep: the null slot, and an address for every name. -/
structure Filled (l : Nat → Entry) : Prop where
  null : l 0 = {}
  filled : ∀ i ∈ slots, (l i).name = 0 ↔ (l i).adr = 0
  unique : Unique l

/-- `registr` writes the first free slot, or there is none. -/
theorem registr_cases (req : Request) (l : Nat → Entry) :
    (∃ i e, i ∈ slots ∧ (l i).name = 0 ∧ e.name = req.name ∧ e.adr = req.adr ∧
      registr req l = (update l i e, i)) ∨
    ¬Room l ∧ registr req l = (l, 0) := by
  unfold registr
  split
  next i found =>
    obtain ⟨mem, free⟩ := slotOf_spec found
    exact .inl ⟨i, _, mem, eq_of_beq free, rfl, rfl, rfl⟩
  next found => exact .inr ⟨slotOf_name_none.mp found, rfl⟩

variable (filled : Filled l) (mem : i ∈ slots)
include filled mem

/-- A new name keeps the list in order. -/
theorem Filled.put {e : Entry} (free : (l i).name = 0) (name : e.name ≠ 0) (adr : e.adr ≠ 0)
    (new : ¬Holds e.name l) : Filled (update l i e) where
  null := by
    rw [update_of_ne (zero_not_slot mem).symm]
    exact filled.null
  filled := by
    intro j mem'
    rcases eq_or_ne j i with rfl | ne
    · simp [name, adr]
    · rw [update_of_ne ne]
      exact filled.filled j mem'
  unique := by
    intro j hj k hk some same
    rcases eq_or_ne j i with rfl | hji <;> rcases eq_or_ne k j with rfl | hkj
    · rfl
    · rw [update_self, update_of_ne hkj] at same
      exact absurd ⟨k, hk, same.symm⟩ new
    · rfl
    · rw [update_of_ne hji] at same some
      rcases eq_or_ne k i with rfl | hki
      · rw [update_self] at same
        exact absurd ⟨j, hj, same⟩ new
      · rw [update_of_ne hki] at same
        exact filled.unique j hj k hk some same

/-- A slot is emptied. -/
theorem Filled.clear : Filled (update l i (l 0)) where
  null := by
    rw [update_of_ne (zero_not_slot mem).symm]
    exact filled.null
  filled := by
    intro j mem'
    rcases eq_or_ne j i with rfl | ne
    · simp [filled.null]
    · rw [update_of_ne ne]
      exact filled.filled j mem'
  unique := by
    have kept {j : Nat} (some : (update l i (l 0) j).name ≠ 0) : j ≠ i := by
      rintro rfl
      simp [filled.null] at some
    intro j hj k hk some same
    have hji := kept some
    have hki := kept (same ▸ some)
    rw [update_of_ne hji, update_of_ne hki] at same
    rw [update_of_ne hji] at some
    exact filled.unique j hj k hk some same

/-- The name of the slot that is emptied is not in the list any more, and the others are. -/
theorem Filled.getAdr_clear (some : name ≠ 0) :
    getAdr name (update l i (l 0)) = if (l i).name = name then 0 else getAdr name l := by
  split
  next here =>
    refine getAdr_of_not_holds ?_
    rintro ⟨j, mem', there⟩
    rcases eq_or_ne j i with rfl | ne
    · rw [update_self, filled.null] at there
      exact some there.symm
    · rw [update_of_ne ne] at there
      exact ne (filled.unique j mem' i mem (there.trans_ne some) (there.trans here.symm))
  next other =>
    refine getAdr_congr other ?_
    rw [filled.null]
    exact some.symm

end

/-! ## One step -/

section

variable {s s' : State T} {e : Event T} {name : Nat} {trace : List (Record (State T) (Event T))}

/-- The list is in order, and the calls have names and addresses. -/
structure Ok (s : State T) : Prop where
  filled : Filled s.lxrtList
  call : ∀ t, ∀ r ∈ s.call t, r.name ≠ 0 ∧ r.adr ≠ 0

/-- What a step does to the list: nothing, a new name, or an emptied slot. -/
inductive Writes (s : State T) (e : Event T) (s' : State T) : Prop where
  | none : s'.lxrtList = s.lxrtList → (∀ name, registered name ⟨s, e, s'⟩ = none) →
      deregistered ⟨s, e, s'⟩ = none → (∀ self, e = .registr self → ¬Room s.lxrtList) →
      Writes s e s'
  | put {self : T} {r : Request} {i : Nat} {v : Entry} : e = .registr self → s.call self = some r →
      i ∈ slots → (s.lxrtList i).name = 0 → v.name = r.name → v.adr = r.adr →
      registr r s.lxrtList = (update s.lxrtList i v, i) → s'.lxrtList = update s.lxrtList i v →
      Writes s e s'
  | clear {i : Nat} : i ∈ slots → (∀ self, e ≠ .registr self) →
      (∀ name, registered name ⟨s, e, s'⟩ = Option.none) →
      deregistered ⟨s, e, s'⟩ = some (s.lxrtList i).name →
      s'.lxrtList = update s.lxrtList i (s.lxrtList 0) → Writes s e s'

theorem step_writes (h : step e s = some s') : Writes s e s' := by
  cases e with
  | rtRegister self r =>
      obtain ⟨-, h⟩ := Option.ite_none_right_eq_some.mp h
      refine .none ?_ (fun _ => rfl) rfl nofun
      split at h <;> cases h <;> rfl
  | registr self =>
      dsimp only [step] at h
      split at h
      next r call =>
        cases h
        rcases registr_cases r s.lxrtList with ⟨i, v, mem, free, name, adr, same⟩ | ⟨full, same⟩
        · refine .put rfl call mem free name adr same ?_
          dsimp only
          rw [same]
        · refine .none ?_ (fun name => ?_) rfl fun _ _ => full
          · dsimp only
            rw [same]
          · simp [registered, call, same]
      next => cases h
  | rtDrgOnName name =>
      obtain ⟨-, h⟩ := Option.ite_none_right_eq_some.mp h
      cases h
      dsimp only [drgOnName, drgOn]
      split
      next i found =>
        obtain ⟨mem, here⟩ := slotOf_spec found
        refine .clear mem nofun (fun _ => rfl) ?_ rfl
        dsimp only [deregistered]
        rw [found, Option.map_some, eq_of_beq here]
      next found =>
        refine .none rfl (fun _ => rfl) ?_ nofun
        dsimp only [deregistered]
        rw [found, Option.map_none]
  | rtDrgOnAdr adr =>
      obtain ⟨-, h⟩ := Option.ite_none_right_eq_some.mp h
      cases h
      dsimp only [drgOnAdr, drgOn]
      split
      next i found =>
        refine .clear (slotOf_spec found).1 nofun (fun _ => rfl) ?_ rfl
        dsimp only [deregistered]
        rw [found, Option.map_some]
      next found =>
        refine .none rfl (fun _ => rfl) ?_ nofun
        dsimp only [deregistered]
        rw [found, Option.map_none]

theorem Ok.calls (ok : Ok s) (h : step e s = some s') :
    ∀ t, ∀ r ∈ s'.call t, r.name ≠ 0 ∧ r.adr ≠ 0 := by
  cases e with
  | rtRegister self r =>
      obtain ⟨⟨-, proper⟩, h⟩ := Option.ite_none_right_eq_some.mp h
      split at h
      next =>
        cases h
        exact ok.call
      next =>
        cases h
        intro t r' mem
        dsimp only at mem
        rcases eq_or_ne t self with rfl | ne
        · rw [update_self] at mem
          cases mem
          exact proper
        · rw [update_of_ne ne] at mem
          exact ok.call t r' mem
  | registr self =>
      dsimp only [step] at h
      split at h
      next =>
        cases h
        intro t r' mem
        dsimp only at mem
        rcases eq_or_ne t self with rfl | ne
        · rw [update_self] at mem
          cases mem
        · rw [update_of_ne ne] at mem
          exact ok.call t r' mem
      next => cases h
  | rtDrgOnName name =>
      obtain ⟨-, h⟩ := Option.ite_none_right_eq_some.mp h
      cases h
      exact ok.call
  | rtDrgOnAdr adr =>
      obtain ⟨-, h⟩ := Option.ite_none_right_eq_some.mp h
      cases h
      exact ok.call

omit [DecidableEq T] in
/-- What `registr` writes in time is new. -/
theorem not_holds_of_inTime {self : T} {r : Request} {i : Nat} (inTime : InTime s (.registr self))
    (call : s.call self = some r) (mem : i ∈ slots) (free : (s.lxrtList i).name = 0) :
    ¬Holds r.name s.lxrtList := by
  rintro ⟨j, mem', here⟩
  exact inTime r (by rw [call]; rfl) ⟨i, mem, free⟩ j mem' here

theorem Ok.step (ok : Ok s) (inTime : InTime s e) (h : Registry.step e s = some s') : Ok s' where
  filled := by
    cases step_writes h with
    | none same =>
        rw [same]
        exact ok.filled
    | put event call mem free name adr _ same =>
        subst event
        have new := not_holds_of_inTime inTime call mem free
        obtain ⟨proper, address⟩ := ok.call _ _ (by rw [call]; rfl)
        rw [same]
        exact ok.filled.put mem free (name.trans_ne proper) (adr.trans_ne address) (by rwa [name])
    | clear mem _ _ _ same =>
        rw [same]
        exact ok.filled.clear mem
  call := ok.calls h

/-- A name is twice in the list after a `registr` that is not in time, and only then. -/
theorem Ok.unique_iff (ok : Ok s) (h : Registry.step e s = some s') :
    Unique s'.lxrtList ↔ InTime s e := by
  refine ⟨fun unique => ?_, fun inTime => (ok.step inTime h).filled.unique⟩
  cases step_writes h with
  | none _ _ _ full =>
      cases e with
      | registr self => exact fun _ _ room => absurd room (full self rfl)
      | rtRegister self r => trivial
      | rtDrgOnName name => trivial
      | rtDrgOnAdr adr => trivial
  | @put self r i v event call mem free name _ _ same =>
      subst event
      intro r' mem' _ j hj here
      rw [call] at mem'
      cases mem'
      have proper := (ok.call self r (by rw [call]; rfl)).1
      have ne : j ≠ i := by
        rintro rfl
        exact proper (here.symm.trans free)
      rw [same] at unique
      refine ne (unique j hj i mem ?_ ?_)
      · rw [update_of_ne ne, here]
        exact proper
      · rw [update_of_ne ne, update_self, here, name]
  | clear _ other =>
      cases e with
      | registr self => exact absurd rfl (other self)
      | rtRegister self r => trivial
      | rtDrgOnName name => trivial
      | rtDrgOnAdr adr => trivial

/-- What a step does to the address of a name. -/
theorem Ok.getAdr_step (ok : Ok s) (inTime : InTime s e) (h : Registry.step e s = some s')
    (named : name ≠ 0) : getAdr name s'.lxrtList = (registered name ⟨s, e, s'⟩).getD
      (if deregistered ⟨s, e, s'⟩ = some name then 0 else getAdr name s.lxrtList) := by
  cases step_writes h with
  | none same none kept =>
      rw [same, none, kept]
      rfl
  | @put self r i v event call mem free name' adr result same =>
      subst event
      have slot := zero_not_slot mem
      rw [same]
      by_cases mine : r.name = name
      · have written : registered name ⟨s, .registr self, s'⟩ = some r.adr := by
          simp [registered, call, mine, result, slot]
        have new := (ok.step inTime h).filled.unique
        rw [same] at new
        rw [written, getAdr_of_slot new named mem, update_self, adr]
        · rfl
        · rw [update_self, name', mine]
      · have other : registered name ⟨s, .registr self, s'⟩ = none := by
          simp [registered, call, mine]
        rw [other, getAdr_congr (free.trans_ne named.symm) (name'.trans_ne mine)]
        rfl
  | @clear i mem _ none cleared same =>
      rw [same, none, cleared, ok.filled.getAdr_clear mem named]
      simp only [Option.some_inj]
      rfl

/-! ## Runs -/

omit [DecidableEq T] in
theorem lastRegistered_append (r : Record (State T) (Event T)) :
    lastRegistered name (trace ++ [r]) = (registered name r).getD
      (if deregistered r = some name then 0 else lastRegistered name trace) := by
  rw [lastRegistered, List.foldl_append]
  rfl

/-- Of the calls that return, one has a slot if the name is registered, and none has returned
if it is not. -/
def Counts (trace : List (Record (State T) (Event T))) : Prop :=
  ∀ before during name, trace = before ++ during → name ≠ 0 → lastRegistered name before = 0 →
    (∀ r ∈ during, deregistered r ≠ some name) →
    (∀ r ∈ during, ∀ self, r.event = .registr self → ∀ req ∈ r.pre.call self, req.name = name →
      Room r.pre.lxrtList) →
    lastRegistered name trace ≠ 0 ∧ (during.filterMap (returned name)).countP (· ≠ 0) = 1 ∨
      lastRegistered name trace = 0 ∧ during.filterMap (returned name) = []

omit [DecidableEq T] in
theorem Counts.oneReturns (counts : Counts trace) : OneReturns trace := by
  intro before during name split named unregistered kept room some
  rcases counts before during name split named unregistered kept room with ⟨-, one⟩ | ⟨-, none⟩
  · exact one
  · exact absurd none some

/-- What holds in a run in which `registr` is in time. -/
structure Consistent (trace : List (Record (State T) (Event T))) (s : State T) : Prop where
  ok : Ok s
  looks : ∀ name, name ≠ 0 → getAdr name s.lxrtList = lastRegistered name trace
  counts : Counts trace

/-- A step is counted. -/
theorem Consistent.count (con : Consistent trace s) (inTime : InTime s e)
    (h : Registry.step e s = some s') : Counts (trace ++ [⟨s, e, s'⟩]) := by
  intro before during name whole named unregistered kept room
  rcases List.eq_nil_or_concat during with rfl | ⟨during, last, rfl⟩
  · rw [List.append_nil] at whole
    rw [whole]
    exact .inr ⟨unregistered, rfl⟩
  · rw [List.concat_eq_append, ← List.append_assoc] at whole
    obtain ⟨front, same⟩ := List.append_inj' whole rfl
    cases same
    simp only [List.concat_eq_append, List.forall_mem_append, List.forall_mem_singleton] at kept room
    have old := con.counts before during name front named unregistered kept.1 room.1
    rw [List.concat_eq_append, List.filterMap_append, lastRegistered_append, if_neg kept.2]
    have looks := con.looks name named
    cases result : returned name ⟨s, e, s'⟩ with
    | none =>
        have written : registered name ⟨s, e, s'⟩ = none := by
          cases e with
          | registr self =>
              dsimp only [returned] at result
              dsimp only [registered]
              rw [Option.bind_eq_none_iff] at result ⊢
              intro r call
              have silent := result r call
              split at silent
              next => cases silent
              next other => exact if_neg fun mine => other mine.1
          | rtRegister self r => rfl
          | rtDrgOnName name => rfl
          | rtDrgOnAdr adr => rfl
        simpa [written, result] using old
    | some slot =>
        cases e with
        | rtRegister self r =>
            dsimp only [returned] at result
            split at result
            next found =>
              cases result
              have again := old.resolve_right fun none => found.2 (looks.trans none.1)
              refine .inl ⟨again.1, ?_⟩
              simpa [returned, found] using again.2
            next => cases result
        | registr self =>
            obtain ⟨r, call, mine⟩ := Option.bind_eq_some_iff.mp result
            dsimp only at call
            obtain ⟨mine, -⟩ := Option.ite_none_right_eq_some.mp mine
            rcases registr_cases r s.lxrtList with ⟨i, v, mem, free, -, -, same⟩ | ⟨full, -⟩
            · have out := not_holds_of_inTime inTime call mem free
              rw [mine] at out
              have first := old.resolve_left fun again =>
                again.1 (looks.symm.trans (getAdr_of_not_holds out))
              have slot := zero_not_slot mem
              have adr := (con.ok.call self r (by rw [call]; rfl)).2
              have written : registered name ⟨s, .registr self, s'⟩ = some r.adr := by
                simp [registered, call, mine, same, slot]
              refine .inl ⟨by simpa [written] using adr, ?_⟩
              simp [first.2, returned, call, mine, same, slot]
            · exact absurd (room.2 self rfl r (by rw [call]; rfl) mine) full
        | rtDrgOnName name => cases result
        | rtDrgOnAdr adr => cases result

theorem Consistent.step (con : Consistent trace s) (inTime : InTime s e)
    (h : Registry.step e s = some s') : Consistent (trace ++ [⟨s, e, s'⟩]) s' where
  ok := con.ok.step inTime h
  looks := by
    intro name named
    rw [con.ok.getAdr_step inTime h named, lastRegistered_append, con.looks name named]
  counts := con.count inTime h

omit [DecidableEq T] in
theorem Initial.consistent (init : Initial s) : Consistent [] s where
  ok :=
    { filled :=
        { null := init.empty 0
          filled := fun i _ => by simp [init.empty i]
          unique := fun i _ j _ some => absurd (by simp [init.empty i]) some }
      call := fun t r mem => by simp [init.call t] at mem }
  looks := by
    intro name named
    refine getAdr_of_not_holds ?_
    rintro ⟨i, -, here⟩
    rw [init.empty i] at here
    exact named here.symm
  counts := by
    intro before during name whole _ _ _ _
    obtain ⟨rfl, rfl⟩ := List.append_eq_nil_iff.mp whole.symm
    exact .inr ⟨rfl, rfl⟩

/-- No name is twice in the list exactly if every `registr` of the run is in time, and then
`rt_get_adr` returns what was registered last, and one of several calls has a slot. -/
theorem registry_consistent {s₀ : State T} (init : Initial s₀)
    (run : Run step (fun _ _ => True) s₀ trace s) :
    ((∀ r ∈ trace, Unique r.post.lxrtList) ↔ ∀ r ∈ trace, InTime r.pre r.event) ∧
      ((∀ r ∈ trace, InTime r.pre r.event) → Unique s.lxrtList ∧
        (∀ name, name ≠ 0 → getAdr name s.lxrtList = lastRegistered name trace) ∧
        OneReturns trace) := by
  have kept : ((∀ r ∈ trace, Unique r.post.lxrtList) ↔ ∀ r ∈ trace, InTime r.pre r.event) ∧
      ((∀ r ∈ trace, InTime r.pre r.event) → Consistent trace s) := by
    refine run.history
      (P := fun trace s =>
        ((∀ r ∈ trace, Unique r.post.lxrtList) ↔ ∀ r ∈ trace, InTime r.pre r.event) ∧
          ((∀ r ∈ trace, InTime r.pre r.event) → Consistent trace s))
      ⟨by simp, fun _ => init.consistent⟩ ?_
    intro trace s s' e before _ h
    simp only [List.forall_mem_append, List.forall_mem_singleton]
    refine ⟨?_, fun inTime => (before.2 inTime.1).step inTime.2 h⟩
    rw [before.1]
    exact and_congr_right fun inTime => (before.2 inTime).ok.unique_iff h
  refine ⟨kept.1, fun inTime => ?_⟩
  have con := kept.2 inTime
  exact ⟨con.ok.filled.unique, con.looks, con.counts.oneReturns⟩

end

/-- An empty list. -/
def fresh : State Bool where
  lxrtList := fun _ => {}
  call := fun _ => none

theorem fresh_initial : Initial fresh := ⟨fun _ => rfl, fun _ => rfl⟩

/-- Two tasks register one name, one after the other. -/
theorem registry_consistent_twice : ∃ trace s, Run step (fun _ _ => True) fresh trace s ∧
    getAdr 7 s.lxrtList = 10 ∧
    ((∀ r ∈ trace, Unique r.post.lxrtList) ↔ ∀ r ∈ trace, InTime r.pre r.event) ∧
      ((∀ r ∈ trace, InTime r.pre r.event) → Unique s.lxrtList ∧
        (∀ name, name ≠ 0 → getAdr name s.lxrtList = lastRegistered name trace) ∧
        OneReturns trace) := by
  obtain ⟨trace, s, run, test⟩ := Run.of_execute step (fun _ _ => True) fresh
    [.rtRegister true ⟨7, 10, 0, none⟩, .registr true, .rtRegister false ⟨7, 20, 0, none⟩]
    (fun s => getAdr 7 s.lxrtList == 10) (by decide +kernel)
  exact ⟨trace, s, run, beq_iff_eq.mp test, registry_consistent fresh_initial run⟩

/-- Two tasks find that the name is not there, and both write it. -/
theorem registered_twice : ∃ trace s, Run step (fun _ _ => True) fresh trace s ∧
    ¬Unique s.lxrtList := by
  obtain ⟨trace, s, run, test⟩ := Run.of_execute step (fun _ _ => True) fresh
    [.rtRegister true ⟨7, 10, 0, none⟩, .rtRegister false ⟨7, 20, 0, none⟩, .registr true,
      .registr false]
    (fun s => (s.lxrtList 1).name == 7 && (s.lxrtList 2).name == 7) (by decide +kernel)
  rw [Bool.and_eq_true, beq_iff_eq, beq_iff_eq] at test
  refine ⟨trace, s, run, fun unique => ?_⟩
  have same := unique 1 (by decide) 2 (by decide) (by rw [test.1]; decide) (test.1.trans test.2.symm)
  cases same

end Rtai.Lxrt.Registry
