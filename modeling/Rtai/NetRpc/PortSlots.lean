import Rtai.Lib.Run
import Rtai.Lib.Stock
import Rtai.Lib.Token

/-!
# The slots of the clients' ports

`rt_send_req_rel_port` with `get_portslot` and `gvb_portslot`, called by any tasks.  A call has a
slot of its own for its answer.  A request keeps it as the port, and a release that the server
acknowledges gives back the port and then the slot, each under the lock.

The server acknowledges a release of a port that it considers free too, and then the port is
put on the stack of the free slots a second time.  `slots_exclusive` is about the runs in which
what is given back is a port in use.
-/

namespace Rtai.NetRpc.PortSlots

open Function Rtai.Lib

def TIMER_FREQ : Nat := 50

def EINVAL : Int := 22

/-- The parameters of the module, where `MaxSocks` has `MaxStubs` added. -/
structure Params where
  MaxStubs : Nat
  MaxSocks : Nat
  le : MaxStubs ≤ MaxSocks

/-- Where a call is in `rt_send_req_rel_port`. -/
inductive Place where
  | loop
  /-- Before `portslot[op].task = 0`. -/
  | clear
  /-- Before `gvb_portslot(portslot + op)`. -/
  | givePort
  /-- Before `gvb_portslot(portslotp)`. -/
  | giveSlot
deriving DecidableEq

/-- A call of `rt_send_req_rel_port`; `op` is 0 for a request. -/
structure Call where
  op : Nat
  /-- `portslotp`. -/
  slot : Nat
  /-- `msg.port`. -/
  port : Int := 0
  i : Nat := 0
  place : Place := .loop

/-- The slots, where `p` is the index of the slot that is pointed to.  `ports` has the slots that
requests have returned and no acknowledged release has been for. -/
structure State (T : Type) where
  portslotsp : Nat
  p : Nat → Nat
  task : Nat → Int
  calls : T → Option Call
  ports : Finset Nat

inductive Event (T : Type) where
  | call (t : T) (node op : Nat)
  /-- A turn of the loop. -/
  | send (t : T)
  /-- An answer of the server, an error or a port. -/
  | answer (t : T) (port : Int)
  /-- The loop is left. -/
  | leave (t : T)
  | clear (t : T)
  | give (t : T)

variable {T : Type}

namespace State

def setTask (i : Nat) (task : Int) (s : State T) : State T :=
  { s with task := update s.task i task }

def getPortslot (P : Params) (s : State T) : Option Nat × State T :=
  if s.portslotsp < P.MaxSocks then
    (some (s.p s.portslotsp), { s with portslotsp := s.portslotsp + 1 })
  else (none, s)

def gvbPortslot (P : Params) (portslotp : Nat) (s : State T) : Int × State T :=
  if s.portslotsp > P.MaxStubs then
    (0, { s with portslotsp := s.portslotsp - 1, p := update s.p (s.portslotsp - 1) portslotp })
  else (-EINVAL, s)

variable [DecidableEq T]

def setCall (t : T) (c : Option Call) (s : State T) : State T :=
  { s with calls := update s.calls t c }

/-- Up to the loop. -/
def call (P : Params) (t : T) (node op : Nat) (s : State T) : State T :=
  if node = 0 ∨ op ≠ 0 ∧ (op < P.MaxStubs ∨ op ≥ P.MaxSocks) then s
  else
    match s.getPortslot P with
    | (none, s) => s
    | (some slot, s) => s.setCall t (some { op := op, slot := slot })

/-- What is behind the loop, up to the first slot that is given back. -/
def leave (t : T) (c : Call) (s : State T) : State T :=
  if c.port > 0 then
    if c.op ≠ 0 then
      { s.setCall t (some { c with place := .clear }) with ports := s.ports.erase c.op }
    else
      { (s.setTask c.slot 1).setCall t none with ports := insert c.slot s.ports }
  else s.setCall t (some { c with place := .giveSlot })

end State

def step [DecidableEq T] (P : Params) : Event T → State T → Option (State T)
  | .call t node op, s => if s.calls t = none then some (s.call P t node op) else none
  | .send t, s =>
      match s.calls t with
      | some c =>
          if c.place = .loop ∧ c.port = 0 ∧ c.i < TIMER_FREQ then
            some (s.setCall t (some { c with i := c.i + 1 }))
          else none
      | none => none
  | .answer t port, s =>
      match s.calls t with
      | some c => some (s.setCall t (some { c with port := port }))
      | none => none
  | .leave t, s =>
      match s.calls t with
      | some c =>
          if c.place = .loop ∧ (c.port ≠ 0 ∨ c.i = TIMER_FREQ) then some (s.leave t c) else none
      | none => none
  | .clear t, s =>
      match s.calls t with
      | some c =>
          if c.place = .clear then
            some ((s.setTask c.op 0).setCall t (some { c with place := .givePort }))
          else none
      | none => none
  | .give t, s =>
      match s.calls t with
      | some c =>
          match c.place with
          | .givePort =>
              some ((s.gvbPortslot P c.op).2.setCall t (some { c with place := .giveSlot }))
          | .giveSlot => some ((s.gvbPortslot P c.slot).2.setCall t none)
          | _ => none
      | none => none

/-- The state after `init_module`. -/
def init (P : Params) : State T where
  portslotsp := P.MaxStubs
  p := id
  task := fun _ => 0
  calls := fun _ => none
  ports := ∅

/-! ## Users -/

/-- Who has a slot: the one who uses the port, or a call that has it for its answer or is about
to give the port back. -/
inductive Holder (T : Type) where
  | port
  | slot (t : T)
  | op (t : T)

namespace State

variable {P : Params} {s s' : State T} {t : T} {c : Call} {x y : Nat} {free free' : Finset Nat}

def Has (s : State T) (x : Nat) : Holder T → Prop
  | .port => x ∈ s.ports
  | .slot t => ∃ c, s.calls t = some c ∧ c.slot = x
  | .op t => ∃ c, s.calls t = some c ∧ (c.place = .clear ∨ c.place = .givePort) ∧ c.op = x

/-- Each slot is free, in one cell, or has one holder. -/
structure Exclusive (P : Params) (s : State T) (free : Finset Nat) : Prop where
  stock : Stock P.MaxStubs P.MaxSocks s.portslotsp s.p free
  token : ∀ x ∈ Finset.Ico P.MaxStubs P.MaxSocks, Token (x ∈ free) (s.Has x)
  inside : ∀ {x h}, s.Has x h → x ∈ Finset.Ico P.MaxStubs P.MaxSocks

namespace Exclusive

variable {h : Holder T} (e : s.Exclusive P free)
include e

theorem not_free (has : s.Has x h) : x ∉ free :=
  (e.token x (e.inside has)).not_free has

/-- Nobody gets or gives anything. -/
theorem kept (sp : s'.portslotsp = s.portslotsp) (p : s'.p = s.p)
    (same : ∀ x h, s'.Has x h ↔ s.Has x h) : s'.Exclusive P free where
  stock := by
    rw [sp, p]
    exact e.stock
  token := fun x inside => (e.token x inside).congr Iff.rfl (same x)
  inside := fun has => e.inside ((same _ _).mp has)

/-- One slot moves. -/
theorem moved (inside : y ∈ Finset.Ico P.MaxStubs P.MaxSocks)
    (stock : Stock P.MaxStubs P.MaxSocks s'.portslotsp s'.p free')
    (others : ∀ x, x ≠ y → (x ∈ free' ↔ x ∈ free) ∧ ∀ h, s'.Has x h ↔ s.Has x h)
    (token : Token (y ∈ free') (s'.Has y)) : s'.Exclusive P free' where
  stock := stock
  token := by
    intro x here
    rcases eq_or_ne x y with rfl | other
    · exact token
    · exact (e.token x here).congr (others x other).1 (others x other).2
  inside := by
    intro x h has
    rcases eq_or_ne x y with rfl | other
    · exact inside
    · exact e.inside (((others x other).2 h).mp has)

/-- A slot that somebody has is taken back. -/
theorem gvbPortslot (has : s.Has x h) :
    s.gvbPortslot P x = (0, { s with
      portslotsp := s.portslotsp - 1, p := update s.p (s.portslotsp - 1) x }) :=
  if_pos (e.stock.room (e.inside has) (e.not_free has))

/-- A holder gives back its only slot. -/
theorem given (used : s.Has x h) (only : ∀ y, y ≠ x → ¬s.Has y h)
    (sp : s'.portslotsp = s.portslotsp - 1) (p : s'.p = update s.p (s.portslotsp - 1) x)
    (has : ∀ y h', s'.Has y h' ↔ s.Has y h' ∧ h' ≠ h) : s'.Exclusive P (insert x free) := by
  refine e.moved (e.inside used) ?_ (fun y other => ⟨by simp [other], fun h' => ?_⟩) ?_
  · rw [sp, p]
    exact e.stock.push (e.inside used) (e.not_free used)
  · have := only y other
    rw [has]
    rcases eq_or_ne h' h with rfl | _ <;> simp_all
  · exact (e.token _ (e.inside used)).release used (Finset.mem_insert_self _ _) fun h' => has _ h'

end Exclusive

/-- What is given back is a port in use. -/
def Proper (s : State T) : Event T → Prop
  | .leave t => ∀ c ∈ s.calls t, c.port > 0 → c.op ≠ 0 → c.op ∈ s.ports
  | _ => True

instance (s : State T) : ∀ e, Decidable (Proper s e)
  | .leave _ => inferInstanceAs (Decidable (∀ _ ∈ _, _ > _ → _ ≠ _ → _ ∈ _))
  | .call .. | .send _ | .answer .. | .clear _ | .give _ => isTrue trivial

/-- A slot is on the stack of the free ones. -/
def Available (P : Params) (s : State T) (x : Nat) : Prop :=
  ∃ i, s.portslotsp ≤ i ∧ i < P.MaxSocks ∧ s.p i = x

/-! ## Moves -/

variable [DecidableEq T] {d : Option Call}

theorem has_port_setCall : (s.setCall t d).Has x .port ↔ x ∈ s.ports := Iff.rfl

theorem has_slot_setCall {t' : T} : (s.setCall t d).Has x (.slot t') ↔
    if t' = t then ∃ c, d = some c ∧ c.slot = x else s.Has x (.slot t') := by
  rcases eq_or_ne t' t with rfl | other
  · simp [Has, setCall]
  · simp [Has, setCall, other]

theorem has_op_setCall {t' : T} : (s.setCall t d).Has x (.op t') ↔
    if t' = t then ∃ c, d = some c ∧ (c.place = .clear ∨ c.place = .givePort) ∧ c.op = x
    else s.Has x (.op t') := by
  rcases eq_or_ne t' t with rfl | other
  · simp [Has, setCall]
  · simp [Has, setCall, other]

namespace Exclusive

/-- A call with the same slots as before. -/
theorem setCall {d : Call} (e : s.Exclusive P free) (here : s.calls t = some c)
    (slot : d.slot = c.slot) (op : d.op = c.op)
    (place : d.place = .clear ∨ d.place = .givePort ↔ c.place = .clear ∨ c.place = .givePort) :
    (s.setCall t (some d)).Exclusive P free := by
  refine e.kept rfl rfl fun x h => ?_
  cases h with
  | port => exact has_port_setCall
  | slot t' =>
      rw [has_slot_setCall]
      split_ifs with same
      · simp [Has, same, here, slot]
      · rfl
  | op t' =>
      rw [has_op_setCall]
      split_ifs with same
      · simp [Has, same, here, op, place]
      · rfl

/-- `get_portslot` returns a slot that nobody has. -/
theorem call {node op : Nat} (e : s.Exclusive P free) (none : s.calls t = none) :
    ∃ free', (s.call P t node op).Exclusive P free' := by
  unfold State.call
  split_ifs with refused
  · exact ⟨free, e⟩
  · unfold getPortslot
    split_ifs with some
    · refine ⟨free.erase (s.p s.portslotsp), e.moved (e.stock.range (e.stock.top_mem some))
        (e.stock.pop some) (fun x other => ⟨by simp [other], fun h => ?_⟩) ?_⟩
      · cases h with
        | port => exact has_port_setCall
        | slot t' =>
            refine has_slot_setCall.trans ?_
            split_ifs with same
            · simp [Has, same, none, other.symm]
            · rfl
        | op t' =>
            refine has_op_setCall.trans ?_
            split_ifs with same
            · simp [Has, same, none]
            · rfl
      · have mem := e.stock.top_mem some
        refine (e.token _ (e.stock.range mem)).take (p := .slot t) mem (by simp) fun h => ?_
        cases h with
        | port => exact has_port_setCall.trans (by simp [Has])
        | slot t' =>
            refine has_slot_setCall.trans ?_
            split_ifs with same
            · simp [same]
            · simp [Has, same]
        | op t' =>
            refine has_op_setCall.trans ?_
            split_ifs with same
            · simp [Has, same, none]
            · simp [Has]
    · exact ⟨free, e⟩

variable (e : s.Exclusive P free) (here : s.calls t = some c)
include e here

/-- The answer has come: the port is no longer in use. -/
theorem leave_release (loop : c.place = .loop) (used : c.op ∈ s.ports) :
    State.Exclusive P { s.setCall t (some { c with place := .clear }) with
      ports := s.ports.erase c.op } free := by
  have has (x : Nat) (h : Holder T) :
      State.Has { s.setCall t (some { c with place := .clear }) with
        ports := s.ports.erase c.op } x h ↔ s.Has x h ∧ (h ≠ .port ∨ x ≠ c.op) ∨ h = .op t ∧ x = c.op := by
    cases h with
    | port => simp [Has, and_comm]
    | slot t' => rcases eq_or_ne t' t with rfl | other <;> simp [Has, State.setCall, *]
    | op t' =>
        rcases eq_or_ne t' t with rfl | other
        · simp [Has, State.setCall, here, loop, eq_comm]
        · simp [Has, State.setCall, other]
  refine e.moved (e.inside (h := .port) used) e.stock (fun x other => ⟨Iff.rfl, fun h => ?_⟩) ?_
  · simp [has, other]
  · refine (e.token _ (e.inside (h := .port) used)).pass (p := .port) (q := .op t) used
      (e.not_free (h := .port) used) fun h => ?_
    simp [has]

/-- The slot of a call becomes a port. -/
theorem leave_request (loop : c.place = .loop) :
    State.Exclusive P { (s.setTask c.slot 1).setCall t none with
      ports := insert c.slot s.ports } free := by
  have has (x : Nat) (h : Holder T) :
      State.Has { (s.setTask c.slot 1).setCall t none with ports := insert c.slot s.ports } x h ↔
        s.Has x h ∧ h ≠ .slot t ∨ h = .port ∧ x = c.slot := by
    cases h with
    | port => simp [Has, or_comm]
    | slot t' => rcases eq_or_ne t' t with rfl | other <;> simp [Has, State.setCall, setTask, *]
    | op t' =>
        rcases eq_or_ne t' t with rfl | other
        · simp [Has, State.setCall, here, loop]
        · simp [Has, State.setCall, setTask, other]
  have used : s.Has c.slot (.slot t) := ⟨c, here, rfl⟩
  have only (x : Nat) (other : x ≠ c.slot) : ¬s.Has x (.slot t) := by
    simp [Has, here, other.symm]
  refine e.moved (e.inside used) e.stock (fun x other => ⟨Iff.rfl, fun h => ?_⟩) ?_
  · have := only x other
    rw [has]
    rcases eq_or_ne h (.slot t) with rfl | _ <;> simp_all
  · exact (e.token _ (e.inside used)).pass (p := .slot t) (q := .port) used (e.not_free used)
      fun h => by simp [has]

theorem givePort (place : c.place = .givePort) :
    ((s.gvbPortslot P c.op).2.setCall t (some { c with place := .giveSlot })).Exclusive P
      (insert c.op free) := by
  have used : s.Has c.op (.op t) := ⟨c, here, .inr place, rfl⟩
  rw [e.gvbPortslot used]
  refine e.given used (fun y other => by simp [Has, here, other.symm]) rfl rfl fun y h => ?_
  cases h with
  | port => simp [Has, State.setCall]
  | slot t' => rcases eq_or_ne t' t with rfl | other <;> simp [Has, State.setCall, *]
  | op t' => rcases eq_or_ne t' t with rfl | other <;> simp [Has, State.setCall, *]

theorem giveSlot (place : c.place = .giveSlot) :
    ((s.gvbPortslot P c.slot).2.setCall t none).Exclusive P (insert c.slot free) := by
  have used : s.Has c.slot (.slot t) := ⟨c, here, rfl⟩
  rw [e.gvbPortslot used]
  refine e.given used (fun y other => by simp [Has, here, other.symm]) rfl rfl fun y h => ?_
  cases h with
  | port => simp [Has, State.setCall]
  | slot t' => rcases eq_or_ne t' t with rfl | other <;> simp [Has, State.setCall, *]
  | op t' => rcases eq_or_ne t' t with rfl | other <;> simp [Has, State.setCall, *]

end Exclusive

theorem Exclusive.step {e : Event T} (excl : s.Exclusive P free) (proper : Proper s e)
    (stepped : step P e s = some s') : ∃ free', s'.Exclusive P free' := by
  cases e with
  | call t node op =>
      simp only [PortSlots.step] at stepped
      split at stepped
      next none =>
        cases stepped
        exact excl.call none
      next => cases stepped
  | send t =>
      simp only [PortSlots.step] at stepped
      split at stepped
      next c here =>
        split at stepped
        next =>
          cases stepped
          exact ⟨free, excl.setCall here rfl rfl Iff.rfl⟩
        next => cases stepped
      next => cases stepped
  | answer t port =>
      simp only [PortSlots.step] at stepped
      split at stepped
      next c here =>
        cases stepped
        exact ⟨free, excl.setCall here rfl rfl Iff.rfl⟩
      next => cases stepped
  | leave t =>
      simp only [PortSlots.step] at stepped
      split at stepped
      next c here =>
        split at stepped
        next left =>
          cases stepped
          unfold State.leave
          split_ifs with positive release
          · exact ⟨free, excl.leave_release here left.1 (proper c here positive release)⟩
          · exact ⟨free, excl.leave_request here left.1⟩
          · exact ⟨free, excl.setCall here rfl rfl (by simp [left.1])⟩
        next => cases stepped
      next => cases stepped
  | clear t =>
      simp only [PortSlots.step] at stepped
      split at stepped
      next c here =>
        split at stepped
        next place =>
          cases stepped
          have cleared : (s.setTask c.op 0).Exclusive P free :=
            excl.kept rfl rfl fun _ h => by cases h <;> rfl
          exact ⟨free, cleared.setCall here rfl rfl (by simp [place])⟩
        next => cases stepped
      next => cases stepped
  | give t =>
      simp only [PortSlots.step] at stepped
      split at stepped
      next c here =>
        split at stepped
        next place =>
          cases stepped
          exact ⟨_, excl.givePort here place⟩
        next place =>
          cases stepped
          exact ⟨_, excl.giveSlot here place⟩
        next => cases stepped
      next => cases stepped

/-- What is said of the slots. -/
structure Sound (P : Params) (s : State T) : Prop where
  one : ∀ x h h', s.Has x h → s.Has x h' → h = h'
  fresh : ∀ slot s', s.getPortslot P = (some slot, s') → ∀ h, ¬s.Has slot h
  returned : ∀ t c, s.calls t = some c → c.place = .giveSlot →
    ∃ s', step P (.give t) s = some s' ∧ s'.calls t = none ∧ s'.Available P c.slot
  quiet : (∀ t, s.calls t = none) → s.ports = ∅ → s.portslotsp = P.MaxStubs ∧
    ∀ x ∈ Finset.Ico P.MaxStubs P.MaxSocks, ∃! i, i ∈ Finset.Ico P.MaxStubs P.MaxSocks ∧ s.p i = x

theorem Exclusive.sound (e : s.Exclusive P free) : s.Sound P := by
  refine ⟨fun x h h' has has' => (e.token x (e.inside has)).unique has has',
    fun slot s' got h has => ?_, fun t c here place => ?_, fun none unused => ?_⟩
  · unfold getPortslot at got
    split_ifs at got with some
    · obtain rfl : s.p s.portslotsp = slot := by simpa using congrArg Prod.fst got
      exact e.not_free has (e.stock.top_mem some)
    · simp at got
  · refine ⟨(s.gvbPortslot P c.slot).2.setCall t none, ?_, by simp [State.setCall], ?_⟩
    · simp [PortSlots.step, here, place]
    · exact (e.giveSlot here place).stock.mem.mp (Finset.mem_insert_self _ _)
  · have all : ∀ x ∈ Finset.Ico P.MaxStubs P.MaxSocks, x ∈ free := fun x inside =>
      (e.token x inside).free_of_none fun h => by
        cases h with
        | port => simp [Has, unused]
        | slot t => simp [Has, none]
        | op t => simp [Has, none]
    have full := e.stock.sp_eq all
    refine ⟨full, fun x inside => ?_⟩
    obtain ⟨i, low, high, here⟩ := e.stock.mem.mp (all x inside)
    rw [full] at low
    refine ⟨i, ⟨Finset.mem_Ico.mpr ⟨low, high⟩, here⟩, fun j ⟨inside', here'⟩ => ?_⟩
    rw [Finset.mem_Ico] at inside'
    exact e.stock.once (full ▸ inside'.1) inside'.2 (full ▸ low) high (here'.trans here.symm)

end State

theorem init_exclusive (P : Params) :
    (init P : State T).Exclusive P (Finset.Ico P.MaxStubs P.MaxSocks) := by
  have nobody (x : Nat) (h : Holder T) : ¬(init P).Has x h := by
    cases h <;> simp [State.Has, init]
  exact ⟨Stock.full P.le, fun x inside => .inl ⟨inside, nobody x⟩, fun has => absurd has (nobody _ _)⟩

/-- The slots of every run in which what is given back is a port in use. -/
theorem slots_exclusive [DecidableEq T] {P : Params} {tr : List (Record (State T) (Event T))} {s : State T}
    (run : Run (step P) State.Proper (init P) tr s) : s.Sound P := by
  obtain ⟨free, exclusive⟩ : ∃ free, s.Exclusive P free :=
    run.invariant (P := fun s => ∃ free, s.Exclusive P free) ⟨_, init_exclusive P⟩
      fun ⟨_, exclusive⟩ proper stepped => exclusive.step proper stepped
  exact exclusive.sound

/-- Two slots. -/
def twoSlots : Params := ⟨1, 3, by decide⟩

/-- A request and its release. -/
def requestAndRelease : List (Event Bool) :=
  [.call true 1 0, .answer true 5001, .leave true,
    .call false 1 1, .answer false 5001, .leave false, .clear false, .give false, .give false]

theorem slots_exclusive_released : ∃ (tr : List (Record (State Bool) (Event Bool))) (s : State Bool),
    Run (step twoSlots) State.Proper (init twoSlots) tr s ∧ s.p 1 = 2 ∧ s.p 2 = 1 ∧
      s.Sound twoSlots := by
  obtain ⟨tr, s, run, ends⟩ := Run.of_execute (step twoSlots) State.Proper (init twoSlots)
    requestAndRelease (fun s => s.p 1 = 2 ∧ s.p 2 = 1) (by decide)
  exact ⟨tr, s, run, (of_decide_eq_true ends).1, (of_decide_eq_true ends).2, slots_exclusive run⟩

/-- After a second release two calls get one slot. -/
theorem not_sound : ¬ ∀ (P : Params) (tr : List (Record (State Bool) (Event Bool))) (s : State Bool),
    Run (step P) (fun _ _ => True) (init P) tr s → s.Sound P := by
  intro sound
  obtain ⟨tr, s, run, both⟩ := Run.of_execute (step twoSlots) (fun _ _ => True) (init twoSlots)
    (requestAndRelease ++ [.call false 1 1, .answer false 5001, .leave false, .clear false,
      .give false, .give false, .call true 1 0, .call false 1 0])
    (fun s => (s.calls true).any (·.slot = 1) ∧ (s.calls false).any (·.slot = 1)) (by decide)
  obtain ⟨first, second⟩ := of_decide_eq_true both
  obtain ⟨c, here, slot⟩ := (Option.any_eq_true _ _).mp first
  obtain ⟨c', here', slot'⟩ := (Option.any_eq_true _ _).mp second
  have same := (sound twoSlots tr s run).one 1 (.slot true) (.slot false)
    ⟨c, here, of_decide_eq_true slot⟩ ⟨c', here', of_decide_eq_true slot'⟩
  cases same

end Rtai.NetRpc.PortSlots
