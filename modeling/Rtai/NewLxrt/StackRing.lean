import Rtai.Lib.Run
import Mathlib.Data.List.Basic

/-!
# Stacks of deleted tasks

`clr_rtext` runs where memory cannot be freed, so it leaves the stack of a kernel task in
`frstk_srq.mp`, and the handler of the service request frees what it finds there on the side of
Linux.  It may be interrupted by deletions between any two of its steps; a service request is
not active twice.

The array is declared while `MAX_SRQ` is 64, and the indices are masked when it is 128.

`indices`, `deposited`, `freed` and `due` are a record of the run: the places of the array that
have been written to or read, the pointers written and freed, and how many had been written when
the last drain began.
-/

namespace Rtai.NewLxrt.StackRing

open Function Rtai.Lib

abbrev Ptr := UInt32

/-- `MAX_SRQ` at the declaration of `mp`. -/
def declared : Nat := 64

/-- `MAX_SRQ` from its redefinition on. -/
def MAX_SRQ : Nat := 2 <<< 6

def SEMHLF : UInt32 := 0x0000FFFF

def RT_LINUX_PRIORITY : Int32 := 0x7fffFfff

/-- The fields of a task that `clr_rtext` looks at. -/
structure RtTask where
  /-- `magic == RT_TASK_MAGIC`. -/
  magic : Bool := false
  priority : Int32 := 0
  owndres : UInt32 := 0
  /-- `lnxtsk` is not null. -/
  lnxtsk : Bool := false
  stackBottom : Ptr := 0

/-- What the handler does next. -/
inductive Pc where
  | idle | test | free | advance
deriving DecidableEq

structure State (T : Type) where
  task : T → RtTask
  /-- `rt_current`. -/
  current : T
  inn : Nat := 0
  out : Nat := 0
  /-- The memory from `mp` on. -/
  mp : Nat → Ptr := fun _ => 0
  pc : Pc := .idle
  indices : List Nat := []
  deposited : List Ptr := []
  freed : List Ptr := []
  due : Nat := 0

variable {T : Type} [DecidableEq T]

namespace State

/-- `clr_rtext` is carried out at once. -/
def clears (t : T) (s : State T) : Bool :=
  (s.task t).magic && (s.task t).priority ≠ RT_LINUX_PRIORITY &&
    ((s.task t).owndres &&& SEMHLF = 0 || t = s.current ||
      (s.task s.current).priority = RT_LINUX_PRIORITY)

def deposit (t : T) (s : State T) : State T :=
  { s with
    mp := update s.mp s.inn (s.task t).stackBottom
    inn := (s.inn + 1) &&& (MAX_SRQ - 1)
    indices := s.indices ++ [s.inn]
    deposited := s.deposited ++ [(s.task t).stackBottom] }

def clrRtext (t : T) (s : State T) : State T :=
  if s.clears t then
    let s := if (s.task t).lnxtsk then s else s.deposit t
    { s with task := update s.task t { s.task t with magic := false } }
  else s

/-- `rt_task_init`, with the stack it has been given. -/
def rtTaskInit (t : T) (priority : Int32) (st : Ptr) (s : State T) : State T :=
  if (s.task t).magic ∨ priority < 0 then s
  else { s with task := update s.task t ⟨true, priority, 0, false, st⟩ }

/-- `set_rtext`, which makes a task of a Linux process; its stack is `fpu_reg`. -/
def setRtext (t : T) (priority : Int32) (fpuReg : Ptr) (s : State T) : State T :=
  if (s.task t).magic ∨ priority < 0 then s
  else { s with task := update s.task t ⟨true, priority, 0, true, fpuReg⟩ }

/-- A step of `frstk_srq_handler`. -/
def handler (s : State T) : State T :=
  match s.pc with
  | .idle => { s with pc := .test, due := s.deposited.length }
  | .test => { s with pc := if s.out ≠ s.inn then .free else .idle }
  | .free =>
      { s with
        pc := .advance
        indices := s.indices ++ [s.out]
        freed := s.freed ++ [s.mp s.out] }
  | .advance => { s with pc := .test, out := (s.out + 1) &&& (MAX_SRQ - 1) }

end State

inductive Event (T : Type) where
  | rtTaskInit (t : T) (priority : Int32) (st : Ptr)
  | setRtext (t : T) (priority : Int32) (fpuReg : Ptr)
  | clrRtext (t : T)
  | handler
  /-- The rest of the scheduler. -/
  | schedule (current : T) (priority : T → Int32) (owndres : T → UInt32)

def step : Event T → State T → Option (State T)
  | .rtTaskInit t priority st, s => some (s.rtTaskInit t priority st)
  | .setRtext t priority fpuReg, s => some (s.setRtext t priority fpuReg)
  | .clrRtext t, s => some (s.clrRtext t)
  | .handler, s => some s.handler
  | .schedule current priority owndres, s =>
      some { s with
        current := current
        task := fun t => { s.task t with priority := priority t, owndres := owndres t } }

/-- The module has been loaded: `frstk_srq.in = frstk_srq.out = 0`. -/
def loaded (task : T → RtTask) (current : T) : State T := { task := task, current := current }

/-- The indices are inside the array, each pointer is freed once, in the order in which they were
left, and a drain does not end before it has freed all that it was to. -/
structure Meets (s : State T) : Prop where
  inside : ∀ i ∈ s.indices, i < declared
  once : s.freed <+: s.deposited
  drained : s.pc = .idle → s.due ≤ s.freed.length

/-- A stack is left by a deletion of a kernel task that is carried out. -/
def deposits (s : State T) : Event T → Bool
  | .clrRtext t => s.clears t && !(s.task t).lnxtsk
  | _ => false

/-- The deletions of kernel tasks in a run. -/
def deletions (tr : List (Record (State T) (Event T))) : Nat :=
  tr.countP fun r => deposits r.pre r.event

theorem mask_eq (k : Nat) : k &&& (MAX_SRQ - 1) = k % 128 := Nat.and_two_pow_sub_one_eq_mod k 7

/-! ## The invariant -/

namespace State

variable {s s' : State T} {t : T} {e : Event T}

/-- The ring apart from the tasks. -/
def SameRing (s s' : State T) : Prop :=
  s'.inn = s.inn ∧ s'.out = s.out ∧ s'.mp = s.mp ∧ s'.pc = s.pc ∧ s'.indices = s.indices ∧
    s'.deposited = s.deposited ∧ s'.freed = s.freed ∧ s'.due = s.due

/-- A step is one of the handler, leaves a stack, or has nothing to do with the ring. -/
theorem step_cases (stepped : step e s = some s') :
    (e = .handler ∧ s' = s.handler) ∨
    (deposits s e = true ∧ ∃ t, SameRing (s.deposit t) s') ∨
    (deposits s e = false ∧ SameRing s s') := by
  cases e with
  | handler =>
      cases stepped
      exact Or.inl ⟨rfl, rfl⟩
  | clrRtext t =>
      cases stepped
      refine Or.inr ?_
      unfold clrRtext deposits
      split_ifs with clears kept
      · exact Or.inr ⟨by simp [kept], rfl, rfl, rfl, rfl, rfl, rfl, rfl, rfl⟩
      · exact Or.inl ⟨by simp [clears, kept], t, rfl, rfl, rfl, rfl, rfl, rfl, rfl, rfl⟩
      · exact Or.inr ⟨by simp [clears], rfl, rfl, rfl, rfl, rfl, rfl, rfl, rfl⟩
  | rtTaskInit t priority st =>
      cases stepped
      refine Or.inr (Or.inr ⟨rfl, ?_⟩)
      unfold rtTaskInit
      split_ifs <;> exact ⟨rfl, rfl, rfl, rfl, rfl, rfl, rfl, rfl⟩
  | setRtext t priority fpuReg =>
      cases stepped
      refine Or.inr (Or.inr ⟨rfl, ?_⟩)
      unfold setRtext
      split_ifs <;> exact ⟨rfl, rfl, rfl, rfl, rfl, rfl, rfl, rfl⟩
  | schedule current priority owndres =>
      cases stepped
      exact Or.inr (Or.inr ⟨rfl, rfl, rfl, rfl, rfl, rfl, rfl, rfl, rfl⟩)

/-- Where the stacks are left. -/
structure Placed (s : State T) : Prop where
  inn : s.inn = s.deposited.length % 128
  written : ∀ k < s.deposited.length, k % 128 ∈ s.indices

/-- The ring of the first 64 stacks, which does not wrap. -/
structure Kept (s : State T) : Prop where
  inside : ∀ i ∈ s.indices, i < declared
  there : ∀ k < s.deposited.length, s.deposited[k]? = some (s.mp k)
  freed : s.freed = s.deposited.take s.freed.length
  count : s.freed.length = if s.pc = .advance then s.out + 1 else s.out
  few : s.freed.length ≤ s.deposited.length
  next : s.pc = .free → s.out < s.deposited.length
  due : s.due ≤ s.deposited.length
  drained : s.pc = .idle → s.due ≤ s.freed.length

omit [DecidableEq T]

theorem SameRing.placed (same : SameRing s s') (placed : s.Placed) : s'.Placed := by
  obtain ⟨inn, -, -, -, indices, deposited, -, -⟩ := same
  constructor
  · rw [inn, deposited]
    exact placed.inn
  · rw [deposited, indices]
    exact placed.written

theorem SameRing.kept (same : SameRing s s') (kept : s.Kept) : s'.Kept := by
  obtain ⟨-, out, mp, pc, indices, deposited, freed, due⟩ := same
  constructor
  · rw [indices]
    exact kept.inside
  · simp only [deposited, mp]
    exact kept.there
  · rw [freed, deposited]
    exact kept.freed
  · rw [freed, pc, out]
    exact kept.count
  · rw [freed, deposited]
    exact kept.few
  · rw [pc, out, deposited]
    exact kept.next
  · rw [due, deposited]
    exact kept.due
  · rw [pc, due, freed]
    exact kept.drained

theorem Placed.deposit (placed : s.Placed) (t : T) : (s.deposit t).Placed := by
  refine ⟨?_, fun k below => ?_⟩
  · show (s.inn + 1) &&& (MAX_SRQ - 1) = _
    rw [mask_eq, placed.inn]
    simp [State.deposit]
  · have below : k < s.deposited.length + 1 := by simpa [State.deposit] using below
    show _ ∈ s.indices ++ [s.inn]
    rcases Nat.lt_succ_iff_lt_or_eq.mp below with old | rfl
    · exact List.mem_append_left _ (placed.written k old)
    · rw [placed.inn]
      simp

theorem Placed.handler (placed : s.Placed) : s.handler.Placed := by
  unfold State.handler
  split
  · exact ⟨placed.inn, placed.written⟩
  · exact ⟨placed.inn, placed.written⟩
  · exact ⟨placed.inn, fun k below => List.mem_append_left _ (placed.written k below)⟩
  · exact ⟨placed.inn, placed.written⟩

theorem Kept.deposit (kept : s.Kept) (placed : s.Placed) (room : s.deposited.length < declared)
    (t : T) : (s.deposit t).Kept := by
  have inn : s.inn = s.deposited.length := by
    rw [placed.inn]
    exact Nat.mod_eq_of_lt (by unfold declared at room; omega)
  have length : (s.deposit t).deposited.length = s.deposited.length + 1 := by
    simp [State.deposit]
  constructor
  · intro i mem
    rcases List.mem_append.mp mem with old | new
    · exact kept.inside i old
    · rw [List.mem_singleton.mp new, inn]
      exact room
  · intro k below
    show (s.deposited ++ [_])[k]? = some (update s.mp s.inn _ k)
    rw [inn]
    rcases Nat.lt_succ_iff_lt_or_eq.mp (length ▸ below) with old | rfl
    · rw [update_of_ne (Nat.ne_of_lt old), List.getElem?_append_left old]
      exact kept.there k old
    · rw [update_self, List.getElem?_concat_length]
  · show s.freed = (s.deposited ++ [_]).take s.freed.length
    rw [List.take_append_of_le_length kept.few]
    exact kept.freed
  · exact kept.count
  · rw [length]
    exact Nat.le_succ_of_le kept.few
  · intro free
    rw [length]
    exact Nat.lt_succ_of_lt (kept.next free)
  · rw [length]
    exact Nat.le_succ_of_le kept.due
  · exact kept.drained

theorem Kept.handler (kept : s.Kept) (placed : s.Placed)
    (few : s.deposited.length ≤ declared) : s.handler.Kept := by
  have inn : s.inn = s.deposited.length := by
    rw [placed.inn]
    exact Nat.mod_eq_of_lt (by unfold declared at few; omega)
  have count := kept.count
  unfold State.handler
  split
  next pc =>
    rw [pc, if_neg nofun] at count
    exact ⟨kept.inside, kept.there, kept.freed, by simpa using count, kept.few, nofun, Nat.le_refl _, nofun⟩
  next pc =>
    rw [pc, if_neg nofun] at count
    have below := kept.few
    refine ⟨kept.inside, kept.there, kept.freed, ?_, below, ?_, kept.due, ?_⟩
    · show _ = if (if s.out ≠ s.inn then Pc.free else .idle) = .advance then s.out + 1 else s.out
      split_ifs <;> first | exact count | contradiction
    · show (if s.out ≠ s.inn then Pc.free else .idle) = .free →
        s.out < s.deposited.length
      split_ifs with more
      · intro _
        omega
      · nofun
    · show (if s.out ≠ s.inn then Pc.free else .idle) = .idle →
        s.due ≤ s.freed.length
      have due := kept.due
      split_ifs with more
      · nofun
      · intro _
        omega
  next pc =>
    rw [pc, if_neg nofun] at count
    have next := kept.next pc
    have length : (s.freed ++ [s.mp s.out]).length = s.out + 1 := by simp [count]
    refine ⟨fun i mem => ?_, kept.there, ?_, ?_, ?_, nofun, kept.due, nofun⟩
    · rcases List.mem_append.mp mem with old | new
      · exact kept.inside i old
      · rw [List.mem_singleton.mp new]
        exact Nat.lt_of_lt_of_le next few
    · show s.freed ++ [s.mp s.out] = s.deposited.take (s.freed ++ [s.mp s.out]).length
      rw [length, List.take_add_one, kept.there _ next, ← count, ← kept.freed]
      rfl
    · exact length
    · show (s.freed ++ [s.mp s.out]).length ≤ _
      rw [length]
      exact next
  next pc =>
    rw [pc, if_pos rfl] at count
    have out : (s.out + 1) &&& (MAX_SRQ - 1) = s.out + 1 := by
      have := kept.few
      rw [mask_eq]
      exact Nat.mod_eq_of_lt (by unfold declared at few; omega)
    exact ⟨kept.inside, kept.there, kept.freed, by simpa [out] using count, kept.few, nofun,
      kept.due, nofun⟩

end State

/-! ## Runs -/

variable {s : State T} {task : T → RtTask} {current : T} {tr : List (Record (State T) (Event T))}

/-- What a run keeps: the deletions are counted, and as long as there are few the ring is kept. -/
theorem run_kept (run : Run step (fun _ _ => True) (loaded task current) tr s) :
    s.deposited.length = deletions tr ∧ s.Placed ∧ (s.deposited.length ≤ declared → s.Kept) := by
  refine run.history (P := fun tr s => s.deposited.length = deletions tr ∧ s.Placed ∧
    (s.deposited.length ≤ declared → s.Kept)) ?_ ?_
  · exact ⟨rfl, ⟨rfl, nofun⟩, fun _ => ⟨nofun, nofun, rfl, rfl, Nat.le_refl _, nofun, Nat.le_refl _,
      fun _ => Nat.le_refl _⟩⟩
  · intro tr s s' e ⟨count, placed, kept⟩ _ stepped
    have more : deletions (tr ++ [⟨s, e, s'⟩]) = deletions tr + if deposits s e then 1 else 0 := by
      simp [deletions, List.countP_append, List.countP_singleton]
    rcases State.step_cases stepped with ⟨rfl, rfl⟩ | ⟨some, t, same⟩ | ⟨none, same⟩
    · have length : s.handler.deposited = s.deposited := by
        unfold State.handler
        split <;> rfl
      rw [more, length]
      exact ⟨count, placed.handler, fun few => (kept few).handler placed few⟩
    · have length : s'.deposited.length = s.deposited.length + 1 := by
        rw [same.2.2.2.2.2.1]
        simp [State.deposit]
      rw [more, some, length, count]
      refine ⟨rfl, same.placed (placed.deposit t), fun few => same.kept ?_⟩
      rw [← count] at few
      exact (kept (Nat.le_of_succ_le few)).deposit placed few t
    · rw [more, none, same.2.2.2.2.2.1]
      exact ⟨count, same.placed placed, fun few => same.kept (kept few)⟩

/-- The stacks are kept and freed as they should exactly in the runs with no more deletions than
the array has places. -/
theorem stacks_freed (run : Run step (fun _ _ => True) (loaded task current) tr s) :
    Meets s ↔ deletions tr ≤ declared := by
  obtain ⟨count, placed, kept⟩ := run_kept run
  rw [← count]
  constructor
  · intro meets
    by_contra more
    have outside := placed.written declared (Nat.not_le.mp more)
    exact absurd (meets.inside _ outside) (by decide)
  · intro few
    have kept := kept few
    exact ⟨kept.inside, kept.freed ▸ List.take_prefix _ _, kept.drained⟩

/-- A task is made and deleted `n` times over. -/
def remade (n : Nat) : List (Event Unit) :=
  (List.replicate n [.rtTaskInit () 5 0x1000, .clrRtext ()]).flatten

/-- The stack of a task is freed by the handler, which runs twice round its loop. -/
theorem stacks_freed_one : ∃ tr s, Run step (fun _ _ => True) (loaded (fun _ => {}) ()) tr s ∧
    s.freed = [0x1000] ∧ Meets s := by
  obtain ⟨tr, s, run, test⟩ := Run.of_records step (fun _ _ => True) (loaded (fun _ => {}) ())
    (remade 1 ++ List.replicate 5 .handler)
    (fun tr s => s.freed == [0x1000] && decide (deletions tr ≤ declared)) (by decide +kernel)
  simp only [Bool.and_eq_true, beq_iff_eq, decide_eq_true_eq] at test
  exact ⟨tr, s, run, test.1, (stacks_freed run).mpr test.2⟩

/-- The stack of the 65th task is left behind the array, although all others have been freed. -/
theorem not_always_freed : ¬∀ (tr : List (Record (State Unit) (Event Unit))) (s : State Unit),
    Run step (fun _ _ => True) (loaded (fun _ => {}) ()) tr s → Meets s := by
  intro meets
  obtain ⟨tr, s, run, test⟩ := Run.of_execute step (fun _ _ => True) (loaded (fun _ => {}) ())
    ((List.replicate 65 (remade 1 ++ List.replicate 5 .handler)).flatten)
    (fun s => decide (declared ∈ s.indices)) (by decide +kernel)
  exact absurd ((meets tr s run).inside _ (of_decide_eq_true test)) (Nat.lt_irrefl _)

end Rtai.NewLxrt.StackRing
