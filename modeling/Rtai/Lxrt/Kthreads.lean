import Mathlib.Data.Fintype.Basic
import Rtai.Lib.Circular
import Rtai.Lib.Counter
import Rtai.Lib.Run

/-!
# The reservoir of kernel threads

`get_kthread` and `kthread_m` of the newlxrt scheduler, for one CPU.  A caller that finds the
reservoir empty puts a request into the list of `kthread_m`, wakes it, and suspends itself or
goes down on the semaphore.  A request has two words, and so has the order to refill that a
caller leaves behind; a thread to be reaped has one.  `kthread_m` is woken through another list,
`wake_up_srq`.

No list is checked for room, and a wake-up is lost that comes when `kthread_m` has found its list
empty and does not sleep yet.
-/

namespace Rtai.Lxrt.Kthread

open Function Rtai.Lib

def MAX_SRQ : Int := 2 <<< 6

/-- A `klist_t`. -/
structure Klist (α : Type) where
  task : Int → α
  inIdx : Int
  outIdx : Int

namespace Klist

variable {α : Type}

def put (w : α) (l : Klist α) : Klist α :=
  { l with task := update l.task l.inIdx w, inIdx := (l.inIdx + 1) % MAX_SRQ }

def head (l : Klist α) : α := l.task l.outIdx

def next (l : Klist α) : Klist α := { l with outIdx := (l.outIdx + 1) % MAX_SRQ }

/-- The cells in use. -/
def used (l : Klist α) : Int := (l.inIdx - l.outIdx) % MAX_SRQ

def words (l : Klist α) : List α := window l.task MAX_SRQ l.outIdx l.used.toNat

end Klist

/-- A word of the list of `kthread_m`: 0 or 1, or a pointer. -/
inductive Word (P : Type) where
  | num (hard : Bool)
  | task (t : P)
  | linuxTask
  | thread (k : Nat)
deriving DecidableEq

/-- What is put into the list in one go. -/
inductive Entry (P : Type) where
  | request (hard : Bool) (p : P)
  | refill
  | release (k : Nat)
deriving DecidableEq

/-- The current RTAI task of a Linux process is Linux. -/
def Entry.words {P : Type} : Entry P → List (Word P)
  | .request true p => [.num true, .task p]
  | .request false _ => [.num false, .linuxTask]
  | .refill => [.num false, .num false]
  | .release k => [.thread k]

/-- Where `kthread_m` is. -/
inductive Pc where
  /-- In `schedule`, as `TASK_UNINTERRUPTIBLE`. -/
  | asleep
  /-- At the test of the list. -/
  | test
  /-- The list was empty; the state is still to be set. -/
  | between
  | check (hard : Bool)
  | create (hard : Bool)
  /-- The thread `k` has been made. -/
  | store (hard : Bool) (k : Nat)
  | advance (hard : Bool)
  | wake (hard : Bool)
  | finish
deriving DecidableEq

/-- Where a caller of `get_kthread` is. -/
inductive Phase where
  | idle
  /-- At the head of the loop again. -/
  | asking
  /-- The reservoir was empty. -/
  | putting
  /-- The request is in the list. -/
  | waiting (hard : Bool)
  /-- Suspended. -/
  | blocked
  /-- The reservoir is to be refilled. -/
  | refilling (k : Nat)
deriving DecidableEq

structure State (P : Type) where
  klistm : Klist (Word P)
  /-- `wake_up_srq`; `true` is `kthread_m`. -/
  wakeUpSrq : Klist Bool
  pc : Pc
  taskidx : Int
  taskav : Int → Nat
  /-- The threads that have been made. -/
  created : Nat
  resem : Nat
  suspdepth : P → Int
  phase : P → Phase
  /-- The threads that callers were given. -/
  handed : List (P × Nat)
  /-- What has been put into the list of `kthread_m`. -/
  puts : List (Entry P)
  /-- The words of the entries that `kthread_m` has acted on. -/
  taken : List (List (Word P))

/-- The calls of `get_kthread`, other users of `wake_up_srq`, its handler, and `kthread_m`. -/
inductive Event (P : Type) where
  | ask (p : P)
  | request (p : P) (hard : Bool)
  | suspend (p : P) (owndres : Bool)
  | down (p : P)
  | refill (p : P)
  | release (p : P) (k : Nat)
  | other
  | handler
  | kthreadM

/-- The state after `usp_init_module`, which has woken `kthread_m`. -/
def boot (P : Type) (reservoir : Nat) : State P where
  klistm := { task := fun _ => .num false, inIdx := (2 * reservoir) % MAX_SRQ, outIdx := 0 }
  wakeUpSrq := { task := fun _ => false, inIdx := 0, outIdx := 0 }
  pc := .test
  taskidx := 0
  taskav := fun _ => 0
  created := 0
  resem := 0
  suspdepth := fun _ => 0
  phase := fun _ => .idle
  handed := []
  puts := List.replicate reservoir .refill
  taken := []

namespace State

variable {P : Type} [DecidableEq P]

/-- `__get_kthread`. -/
def getKthread (p : P) (s : State P) : State P :=
  if s.taskidx > 0 then
    let k := s.taskav (s.taskidx - 1)
    { s with
      taskidx := s.taskidx - 1
      phase := update s.phase p (.refilling k)
      handed := s.handed ++ [(p, k)] }
  else { s with phase := update s.phase p .putting }

/-- An entry is put into the list of `kthread_m`, which is woken. -/
def put (e : Entry P) (s : State P) : State P :=
  { s with
    klistm := e.words.foldl (fun l w => l.put w) s.klistm
    wakeUpSrq := s.wakeUpSrq.put true
    puts := s.puts ++ [e] }

/-- `rt_task_suspend` of the caller. -/
def rtTaskSuspend (p : P) (owndres : Bool) (s : State P) : State P :=
  { s with
    suspdepth := update s.suspdepth p (s.suspdepth p + 1)
    phase := update s.phase p
      (if s.suspdepth p = 0 ∧ owndres = false then .blocked else .asking) }

def rtTaskResume (p : P) (s : State P) : State P :=
  { s with
    suspdepth := update s.suspdepth p (s.suspdepth p - 1)
    phase := if s.suspdepth p - 1 = 0 ∧ s.phase p = .blocked then update s.phase p .asking
      else s.phase }

/-- `kthread_m` resumes the caller that the word names, or ups the semaphore. -/
def wakeCaller (hard : Bool) (w : Word P) (s : State P) : State P :=
  if hard then
    match w with
    | .task p => s.rtTaskResume p
    | _ => s
  else { s with resem := s.resem + 1 }

/-- The next piece of `kthread_m`. -/
def kthreadM (reservoir : Int) (s : State P) : Option (State P) :=
  match s.pc with
  | .asleep => none
  | .test =>
      if s.klistm.outIdx = s.klistm.inIdx then some { s with pc := .between }
      else
        match s.klistm.head with
        | .num hard => some { s with pc := .check hard }
        | w => some { s with pc := .finish, taken := s.taken ++ [[w]] }
  | .between => some { s with pc := .asleep }
  | .check hard =>
      some { s with pc := if s.taskidx < reservoir then .create hard else .advance hard }
  | .create hard => some { s with pc := .store hard s.created, created := s.created + 1 }
  | .store hard k =>
      some { s with
        pc := .advance hard
        taskav := update s.taskav s.taskidx k
        taskidx := s.taskidx + 1 }
  | .advance hard => some { s with pc := .wake hard, klistm := s.klistm.next }
  | .wake hard =>
      some { s.wakeCaller hard s.klistm.head with
        pc := .finish
        taken := s.taken ++ [[.num hard, s.klistm.head]] }
  | .finish => some { s with pc := .test, klistm := s.klistm.next }

/-- `wake_up_srq_handler` wakes the next on its list. -/
def wakeUp (s : State P) : Option (State P) :=
  if s.wakeUpSrq.outIdx = s.wakeUpSrq.inIdx then none
  else some { s with
    wakeUpSrq := s.wakeUpSrq.next
    pc := if s.wakeUpSrq.head ∧ s.pc = .asleep then .test else s.pc }

end State

variable {P : Type} [DecidableEq P]

def step (reservoir : Int) : Event P → State P → Option (State P)
  | .ask p, s =>
      if s.phase p = .idle ∨ s.phase p = .asking then some (s.getKthread p) else none
  | .request p hard, s =>
      if s.phase p = .putting then
        some ({ s with phase := update s.phase p (.waiting hard) }.put (.request hard p))
      else none
  | .suspend p owndres, s =>
      if s.phase p = .waiting true then some (s.rtTaskSuspend p owndres) else none
  | .down p, s =>
      if s.phase p = .waiting false ∧ s.resem > 0 then
        some { s with resem := s.resem - 1, phase := update s.phase p .asking }
      else none
  | .refill p, s =>
      match s.phase p with
      | .refilling _ => some ({ s with phase := update s.phase p .idle }.put .refill)
      | _ => none
  | .release p k, s => if s.phase p = .idle then some (s.put (.release k)) else none
  | .other, s => some { s with wakeUpSrq := s.wakeUpSrq.put false }
  | .handler, s => s.wakeUp
  | .kthreadM, s => s.kthreadM reservoir

/-- What happens when the callers do nothing. -/
def work (reservoir : Int) (s : State P) : State P :=
  match step reservoir .kthreadM s with
  | some s' => s'
  | none => (step reservoir .handler s).getD s

/-- No caller is suspended, and the semaphore has enough for all that wait. -/
structure AllWoken [Fintype P] (s : State P) : Prop where
  hard : ∀ p, s.phase p ≠ .blocked
  soft : tally s.phase (.waiting false) ≤ s.resem

/-- The entries that `kthread_m` has still to act on. -/
def Pending (rest : List (Entry P)) (s : State P) : Prop :=
  s.puts.map Entry.words = s.taken ++ rest.map Entry.words

/-- What is said of the reservoir. -/
structure Served [Fintype P] (reservoir : Nat) (tr : List (Record (State P) (Event P)))
    (s : State P) : Prop where
  /-- `kthread_m` acts on the entries as they were put. -/
  intact : ∃ rest, Pending rest s ∧
    ((s.pc = .test ∨ s.pc = .between ∨ s.pc = .asleep) →
      s.klistm.words = rest.flatMap Entry.words)
  index : 0 ≤ s.taskidx ∧ s.taskidx ≤ reservoir
  /-- A thread is in the reservoir, or in the hands of `kthread_m`, or of one caller. -/
  once : ∀ k < s.created, (s.handed.map Prod.snd).count k +
    ((List.range s.taskidx.toNat).map fun i : Nat => s.taskav i).count k +
    (if ∃ hard, s.pc = .store hard k then 1 else 0) = 1
  given : ∀ h ∈ s.handed, h.2 < s.created
  /-- A caller is woken after the reservoir has been refilled. -/
  refilled : ∀ r ∈ tr, ∀ hard, r.event = .kthreadM → r.post.pc = .advance hard →
    0 < r.post.taskidx
  woken : ∃ m, AllWoken ((work reservoir)^[m] s)

/-- Each put finds room in its lists, and no wake-up of `kthread_m` comes between its test of a
list that is no longer empty and its sleep, unless there is another. -/
def Proper (s : State P) : Event P → Prop
  | .request _ _ | .refill _ => s.klistm.used + 2 < MAX_SRQ ∧ s.wakeUpSrq.used + 1 < MAX_SRQ
  | .release _ _ => s.klistm.used + 1 < MAX_SRQ ∧ s.wakeUpSrq.used + 1 < MAX_SRQ
  | .other => s.wakeUpSrq.used + 1 < MAX_SRQ
  | .handler => s.pc = .between → s.wakeUpSrq.head = true → s.klistm.outIdx = s.klistm.inIdx ∨
      true ∈ s.wakeUpSrq.next.words
  | .ask _ | .suspend _ _ | .down _ | .kthreadM => True

instance (s : State P) : (e : Event P) → Decidable (Proper s e)
  | .request _ _ | .refill _ | .release _ _ => inferInstanceAs (Decidable (_ ∧ _))
  | .other => inferInstanceAs (Decidable (_ < _))
  | .handler => inferInstanceAs (Decidable (_ → _ → _ ∨ _))
  | .ask _ | .suspend _ _ | .down _ | .kthreadM => inferInstanceAs (Decidable True)

/-! ## The lists -/

/-- The list holds `q`. -/
structure Klist.Holds {α : Type} (l : Klist α) (q : List α) : Prop where
  queued : Queued l.task MAX_SRQ l.outIdx l.inIdx q.length (MAX_SRQ - q.length) q
  room : (q.length : Int) < MAX_SRQ

namespace Klist.Holds

variable {α : Type} {l : Klist α} {q : List α} {w : α}

theorem used (h : l.Holds q) : l.used = q.length := by
  rw [Klist.used, h.queued.behind, Int.emod_sub_emod, add_sub_cancel_left]
  exact Int.emod_eq_of_lt (Int.natCast_nonneg _) h.room

theorem words (h : l.Holds q) : l.words = q := by
  rw [Klist.words, h.used]
  exact h.queued.cells

theorem empty_iff (h : l.Holds q) : l.outIdx = l.inIdx ↔ q = [] := by
  have used := h.used
  rw [Klist.used] at used
  constructor
  · intro same
    rw [same, Int.sub_self, Int.zero_emod] at used
    exact List.eq_nil_of_length_eq_zero (by omega)
  · rintro rfl
    have bounds := h.queued.last_bounds
    have start := h.queued.start
    rw [h.queued.behind]
    exact (Int.emod_eq_of_lt (by simpa using start.1) (by simpa using start.2)).symm.trans
      (by simp)

theorem put (h : l.Holds q) (room : l.used + 1 < MAX_SRQ) : (l.put w).Holds (q ++ [w]) := by
  rw [h.used] at room
  have block : l.inIdx + ([w] : List α).length ≤ MAX_SRQ :=
    Int.add_one_le_of_lt h.queued.last_bounds.2
  have free : (([w] : List α).length : Int) ≤ MAX_SRQ - q.length := by
    rw [List.length_singleton]
    omega
  have more := h.queued.append free block
  have length : ((q ++ [w]).length : Int) = q.length + 1 := by simp
  refine ⟨?_, by omega⟩
  rw [blit_one] at more
  rw [length, ← Int.sub_sub]
  exact more

/-- Words that are put one after the other. -/
theorem puts {b : List α} (h : l.Holds q) (room : l.used + b.length < MAX_SRQ) :
    (b.foldl (fun l w => l.put w) l).Holds (q ++ b) := by
  induction b generalizing l q with
  | nil => simpa using h
  | cons w b ih =>
      rw [List.length_cons, Nat.cast_add, h.used] at room
      have first := h.put (w := w) (by rw [h.used]; omega)
      have rest := ih first (by rw [first.used, List.length_append, List.length_singleton]; omega)
      rw [List.append_assoc] at rest
      exact rest

theorem next (h : l.Holds (w :: q)) : l.head = w ∧ l.next.Holds q := by
  have length : ((w :: q).length : Int) = q.length + 1 := by simp
  have room := h.room
  have one : (1 : Int) ≤ (w :: q).length := by omega
  constructor
  · have front := h.queued.front (t := 1) (by decide) one (Int.lt_iff_add_one_le.mp h.queued.start.2)
    simpa [Klist.head] using front
  · have less := h.queued.drop (t := 1) (by decide) one
    refine ⟨?_, by omega⟩
    rw [length] at less
    convert less using 1 <;> first | omega | rfl

theorem used_next (h : l.Holds (w :: q)) : l.next.used.toNat + 1 = l.used.toNat := by
  rw [h.used, h.next.2.used, List.length_cons]
  rfl

end Klist.Holds

/-! ## The invariant -/

/-- The first word of the entry, if it has two. -/
def Entry.flag : Entry P → Option Bool
  | .request hard _ => some hard
  | .refill => some false
  | .release _ => none

/-- The entry ups the semaphore. -/
def Entry.ups (e : Entry P) : Bool := e.flag = some false

/-- The words in the list when `kthread_m` has still to act on `rest`. -/
def Fits (rest : List (Entry P)) (words : List (Word P)) : Pc → Prop
  | .asleep | .test | .between => words = rest.flatMap Entry.words
  | .check hard | .create hard | .store hard _ | .advance hard =>
      ∃ e es, rest = e :: es ∧ e.flag = some hard ∧ words = e.words ++ es.flatMap Entry.words
  | .wake hard =>
      ∃ e es, rest = e :: es ∧ e.flag = some hard ∧ words = e.words.tail ++ es.flatMap Entry.words
  | .finish => ∃ w, words = w :: rest.flatMap Entry.words

/-- The lists, with what they hold. -/
structure Lists (rest : List (Entry P)) (ws : List Bool) (s : State P) : Prop where
  words : ∃ words, s.klistm.Holds words ∧ Fits rest words s.pc
  wakes : s.wakeUpSrq.Holds ws
  pending : Pending rest s
  /-- `kthread_m` does not sleep over an entry. -/
  awake : s.pc = .between ∨ s.pc = .asleep → rest ≠ [] → true ∈ ws

/-- The threads in the reservoir. -/
def State.stock (s : State P) : List Nat :=
  (List.range s.taskidx.toNat).map fun i : Nat => s.taskav i

/-- The threads. -/
structure Stock (reservoir : Nat) (s : State P) : Prop where
  index : 0 ≤ s.taskidx ∧ s.taskidx ≤ reservoir
  filling : ∀ hard, (s.pc = .create hard ∨ ∃ k, s.pc = .store hard k) → s.taskidx < reservoir
  once : ∀ k, (s.handed.map Prod.snd).count k + s.stock.count k +
    (if ∃ hard, s.pc = .store hard k then 1 else 0) = if k < s.created then 1 else 0

/-- The callers that wait. -/
structure Callers [Fintype P] (rest : List (Entry P)) (s : State P) : Prop where
  depth : ∀ p, (rest.count (.request true p) : Int) =
    s.suspdepth p + if s.phase p = .waiting true then 1 else 0
  blocked : ∀ p, s.phase p = .blocked → 0 < s.suspdepth p
  soft : tally s.phase (.waiting false) ≤ s.resem + rest.countP Entry.ups

def Ok [Fintype P] (reservoir : Nat) (s : State P) : Prop :=
  ∃ rest ws, Lists rest ws s ∧ Stock reservoir s ∧ Callers rest s

section

variable {s : State P} {rest : List (Entry P)} {words : List (Word P)} {ws : List Bool} {e : Entry P}
  {pc : Pc} {hard : Bool} {p : P} {k : Nat} {reservoir : Nat}

section

omit [DecidableEq P]

theorem Entry.words_of_flag (flag : e.flag = some hard) : ∃ w, e.words = [.num hard, w] := by
  cases e with
  | request hard' p => cases hard' <;> cases flag <;> exact ⟨_, rfl⟩
  | refill => cases flag; exact ⟨_, rfl⟩
  | release => cases flag

theorem Entry.words_ne_nil : e.words ≠ [] := by
  cases e with
  | request hard p => cases hard <;> exact List.cons_ne_nil _ _
  | refill | release => exact List.cons_ne_nil _ _

theorem flatMap_words_eq_nil : rest.flatMap Entry.words = [] ↔ rest = [] := by
  constructor
  · intro none
    cases rest with
    | nil => rfl
    | cons e es => exact absurd (List.append_eq_nil_iff.mp none).1 Entry.words_ne_nil
  · rintro rfl
    rfl

/-- An entry is put behind the others. -/
theorem Fits.snoc (fits : Fits rest words pc) : Fits (rest ++ [e]) (words ++ e.words) pc := by
  have more : ∀ l : List (Entry P), (l ++ [e]).flatMap Entry.words =
      l.flatMap Entry.words ++ e.words := by
    intro l
    rw [List.flatMap_append, List.flatMap_singleton]
  cases pc with
  | asleep | test | between =>
      obtain rfl := fits
      exact (more rest).symm
  | check | create | store | advance | wake =>
      obtain ⟨e₁, es, rfl, flag, rfl⟩ := fits
      exact ⟨e₁, es ++ [e], rfl, flag, by rw [more, List.append_assoc]⟩
  | finish =>
      obtain ⟨w, rfl⟩ := fits
      exact ⟨w, by rw [more]; rfl⟩

/-- An entry is put into the list, and `kthread_m` is to be woken. -/
theorem Lists.put (lists : Lists rest ws s) (room : s.klistm.used + e.words.length < MAX_SRQ)
    (room' : s.wakeUpSrq.used + 1 < MAX_SRQ) : Lists (rest ++ [e]) (ws ++ [true]) (s.put e) := by
  obtain ⟨words, holds, fits⟩ := lists.words
  refine ⟨⟨_, holds.puts room, fits.snoc⟩, lists.wakes.put room', ?_, fun _ _ => ?_⟩
  · have pending : s.puts.map Entry.words = _ := lists.pending
    show (s.puts ++ [e]).map Entry.words = s.taken ++ (rest ++ [e]).map Entry.words
    rw [List.map_append, List.map_append, pending, List.append_assoc]
  · exact List.mem_append_right _ (List.mem_singleton.mpr rfl)

end

/-- A caller is given the last thread of the reservoir. -/
theorem Stock.take (stock : Stock reservoir s) (some : s.taskidx > 0) :
    Stock reservoir (s.getKthread p) := by
  obtain ⟨low, high⟩ := stock.index
  have given : s.getKthread p = { s with
      taskidx := s.taskidx - 1
      phase := update s.phase p (.refilling (s.taskav (s.taskidx - 1)))
      handed := s.handed ++ [(p, s.taskav (s.taskidx - 1))] } := if_pos some
  have last : s.stock = (s.getKthread p).stock ++ [s.taskav (s.taskidx - 1)] := by
    have length : s.taskidx.toNat = (s.taskidx - 1).toNat + 1 := by omega
    have index : (((s.taskidx - 1).toNat : Nat) : Int) = s.taskidx - 1 := by omega
    rw [given, State.stock, State.stock, length, List.range_succ, List.map_append,
      List.map_singleton, index]
  refine ⟨?_, fun hard filling => ?_, fun k => ?_⟩
  · rw [given]
    exact ⟨by dsimp only; omega, by dsimp only; omega⟩
  · rw [given] at filling ⊢
    have before := stock.filling hard filling
    dsimp only
    omega
  · have once := stock.once k
    rw [last, List.count_append] at once
    rw [given] at once ⊢
    rw [List.map_append, List.map_singleton, List.count_append, ← once]
    dsimp only
    omega

omit [DecidableEq P] in
/-- `kthread_m` makes a thread. -/
theorem Stock.create (stock : Stock reservoir s) (here : s.pc = .create hard) :
    Stock reservoir { s with pc := .store hard s.created, created := s.created + 1 } := by
  refine ⟨stock.index, fun _ _ => stock.filling hard (.inl here), fun k => ?_⟩
  have once := stock.once k
  rw [here] at once
  have none : ¬∃ hard', Pc.create hard = .store hard' k := by rintro ⟨_, other⟩; cases other
  rw [if_neg none] at once
  have new : (∃ hard', Pc.store hard s.created = .store hard' k) ↔ k = s.created := by
    constructor
    · rintro ⟨_, same⟩
      cases same
      rfl
    · rintro rfl
      exact ⟨hard, rfl⟩
  show _ + _ + (if ∃ hard', Pc.store hard s.created = .store hard' k then 1 else 0) = _
  rw [if_congr new rfl rfl]
  change (s.handed.map Prod.snd).count k + s.stock.count k + _ = if k < s.created + 1 then 1 else 0
  split at once <;> split <;> split <;> omega

omit [DecidableEq P] in
/-- `kthread_m` puts the thread into the reservoir. -/
theorem Stock.store (stock : Stock reservoir s) (here : s.pc = .store hard k) :
    Stock reservoir { s with
      pc := .advance hard
      taskav := update s.taskav s.taskidx k
      taskidx := s.taskidx + 1 } := by
  obtain ⟨low, high⟩ := stock.index
  have room := stock.filling hard (.inr ⟨k, here⟩)
  have more : State.stock { s with
      pc := .advance hard
      taskav := update s.taskav s.taskidx k
      taskidx := s.taskidx + 1 } = s.stock ++ [k] := by
    have length : (s.taskidx + 1).toNat = s.taskidx.toNat + 1 := by omega
    have index : ((s.taskidx.toNat : Nat) : Int) = s.taskidx := by omega
    rw [State.stock]
    dsimp only
    rw [length, List.range_succ, List.map_append, List.map_singleton, index, update_self]
    congr 1
    refine List.map_congr_left fun i hi => update_of_ne ?_ _ _
    have small := List.mem_range.mp hi
    omega
  refine ⟨⟨by dsimp only; omega, by dsimp only; omega⟩, fun hard' filling => ?_, fun k' => ?_⟩
  · rcases filling with creating | ⟨_, storing⟩
    · cases creating
    · cases storing
  · have once := stock.once k'
    rw [here] at once
    have none : ¬∃ hard', Pc.advance hard = .store hard' k' := by rintro ⟨_, other⟩; cases other
    have this : (∃ hard', Pc.store hard k = .store hard' k') ↔ k = k' := by
      constructor
      · rintro ⟨_, same⟩
        cases same
        rfl
      · rintro rfl
        exact ⟨hard, rfl⟩
    rw [if_congr this rfl rfl] at once
    rw [more, List.count_append, List.count_singleton, if_neg none, ← once]
    dsimp only
    by_cases same : k = k'
    · simp [same]
      omega
    · simp [same]

/-! ## Steps -/

variable [Fintype P] {s' : State P}

/-- A caller goes on, and the others stay where they are. -/
theorem Callers.turn {rest' : List (Entry P)} {b : Phase} (callers : Callers rest s)
    (phase : s'.phase = update s.phase p b)
    (others : ∀ q, q ≠ p → s'.suspdepth q = s.suspdepth q)
    (entries : ∀ q, q ≠ p → rest'.count (.request true q) = rest.count (.request true q))
    (depth : (rest'.count (.request true p) : Int) =
      s'.suspdepth p + if b = .waiting true then 1 else 0)
    (blocked : b = .blocked → 0 < s'.suspdepth p)
    (soft : s.resem + rest.countP Entry.ups + (if b = .waiting false then 1 else 0) ≤
      s'.resem + rest'.countP Entry.ups + if s.phase p = .waiting false then 1 else 0) :
    Callers rest' s' := by
  refine ⟨fun q => ?_, fun q => ?_, ?_⟩
  · rw [phase]
    rcases eq_or_ne q p with rfl | other
    · rw [update_self]
      exact depth
    · rw [update_of_ne other, others q other, entries q other]
      exact callers.depth q
  · rw [phase]
    rcases eq_or_ne q p with rfl | other
    · rw [update_self]
      exact blocked
    · rw [update_of_ne other, others q other]
      exact callers.blocked q
  · have before := callers.soft
    have moved := tally_update s.phase (p := p) (a := .waiting false) (b := b)
    rw [phase]
    omega

omit [DecidableEq P] [Fintype P] in
/-- The parts of the state that the lists are about are the same. -/
theorem Lists.same (lists : Lists rest ws s) (klistm : s'.klistm = s.klistm)
    (wakeUpSrq : s'.wakeUpSrq = s.wakeUpSrq) (pc : s'.pc = s.pc) (puts : s'.puts = s.puts)
    (taken : s'.taken = s.taken) : Lists rest ws s' := by
  refine ⟨?_, ?_, ?_, ?_⟩
  · rw [klistm, pc]
    exact lists.words
  · rw [wakeUpSrq]
    exact lists.wakes
  · rw [Pending, puts, taken]
    exact lists.pending
  · rw [pc]
    exact lists.awake

omit [DecidableEq P] [Fintype P] in
/-- `kthread_m` goes on and makes no thread. -/
theorem Stock.turn (stock : Stock reservoir s) (old : ∀ hard k, s.pc ≠ .store hard k)
    (new : ∀ hard k, s'.pc ≠ .store hard k)
    (filling : ∀ hard, s'.pc = .create hard → s.taskidx < reservoir)
    (taskidx : s'.taskidx = s.taskidx) (taskav : s'.taskav = s.taskav)
    (handed : s'.handed = s.handed) (created : s'.created = s.created) : Stock reservoir s' := by
  refine ⟨?_, fun hard fills => ?_, fun k => ?_⟩
  · rw [taskidx]
    exact stock.index
  · rw [taskidx]
    rcases fills with creates | ⟨k, stores⟩
    · exact filling hard creates
    · exact absurd stores (new hard k)
  · have once := stock.once k
    have before : ¬∃ hard, s.pc = .store hard k := fun ⟨hard, stores⟩ => old hard k stores
    have after : ¬∃ hard, s'.pc = .store hard k := fun ⟨hard, stores⟩ => new hard k stores
    rw [if_neg before] at once
    rw [if_neg after, State.stock, taskidx, taskav, handed, created]
    exact once

section

variable (ok : Ok reservoir s)
include ok

theorem Ok.ask (here : s.phase p = .idle ∨ s.phase p = .asking) :
    Ok reservoir (s.getKthread p) := by
  obtain ⟨rest, ws, lists, stock, callers⟩ := ok
  have depth := callers.depth p
  have off : s.phase p ≠ .waiting true := by rcases here with here | here <;> rw [here] <;> nofun
  have soft : s.phase p ≠ .waiting false := by rcases here with here | here <;> rw [here] <;> nofun
  rw [if_neg off] at depth
  refine ⟨rest, ws, ?_, ?_, ?_⟩
  · rw [State.getKthread]
    split <;> exact lists.same rfl rfl rfl rfl rfl
  · by_cases some : s.taskidx > 0
    · exact stock.take some
    · rw [State.getKthread, if_neg some]
      exact ⟨stock.index, stock.filling, stock.once⟩
  · rw [State.getKthread]
    split <;> refine callers.turn rfl (fun _ _ => rfl) (fun _ _ => rfl) depth nofun ?_ <;>
      rw [if_neg soft] <;> rfl

theorem Ok.request (here : s.phase p = .putting)
    (room : s.klistm.used + 2 < MAX_SRQ ∧ s.wakeUpSrq.used + 1 < MAX_SRQ) :
    Ok reservoir ({ s with phase := update s.phase p (.waiting hard) }.put (.request hard p)) := by
  obtain ⟨rest, ws, lists, stock, callers⟩ := ok
  have depth := callers.depth p
  have off : s.phase p ≠ .waiting true := by rw [here]; nofun
  have soft : s.phase p ≠ .waiting false := by rw [here]; nofun
  rw [if_neg off] at depth
  refine ⟨_, _, .put (lists.same rfl rfl rfl rfl rfl) ?_ room.2, ⟨stock.index, stock.filling, stock.once⟩,
    callers.turn rfl (fun _ _ => rfl) (fun q other => ?_) ?_ nofun ?_⟩
  · cases hard <;> exact room.1
  · have apart : (Entry.request hard p == Entry.request true q) = false := by
      simpa using fun _ => Ne.symm other
    rw [List.count_append, List.count_singleton, apart]
    rfl
  · show ((rest ++ [Entry.request hard p]).count (Entry.request true p) : Int) = s.suspdepth p + _
    rw [List.count_append, List.count_singleton]
    cases hard <;> simp <;> omega
  · show s.resem + _ + _ ≤ s.resem + (rest ++ [Entry.request hard p]).countP Entry.ups + _
    rw [List.countP_append, if_neg soft]
    cases hard
    · exact Nat.le_refl _
    · exact Nat.le_refl _

theorem Ok.suspend {owndres : Bool} (here : s.phase p = .waiting true) :
    Ok reservoir (s.rtTaskSuspend p owndres) := by
  obtain ⟨rest, ws, lists, stock, callers⟩ := ok
  have depth := callers.depth p
  have soft : s.phase p ≠ .waiting false := by rw [here]; nofun
  rw [if_pos here] at depth
  have next : (s.rtTaskSuspend p owndres).suspdepth p = s.suspdepth p + 1 := update_self _ _ _
  refine ⟨rest, ws, lists.same rfl rfl rfl rfl rfl, ⟨stock.index, stock.filling, stock.once⟩,
    callers.turn rfl (fun q other => update_of_ne other _ _) (fun _ _ => rfl) ?_ ?_ ?_⟩
  · rw [next, if_neg (by split <;> nofun)]
    omega
  · intro blocked
    rw [next]
    split at blocked
    next first => omega
    next => cases blocked
  · rw [if_neg soft, if_neg (by split <;> nofun)]
    rfl

theorem Ok.down (here : s.phase p = .waiting false) (some : s.resem > 0) :
    Ok reservoir { s with resem := s.resem - 1, phase := update s.phase p .asking } := by
  obtain ⟨rest, ws, lists, stock, callers⟩ := ok
  have depth := callers.depth p
  have off : s.phase p ≠ .waiting true := by rw [here]; nofun
  rw [if_neg off] at depth
  refine ⟨rest, ws, lists.same rfl rfl rfl rfl rfl, ⟨stock.index, stock.filling, stock.once⟩,
    callers.turn rfl (fun _ _ => rfl) (fun _ _ => rfl) depth nofun ?_⟩
  rw [if_pos here]
  show s.resem + _ + 0 ≤ s.resem - 1 + _ + 1
  omega

theorem Ok.refill (here : s.phase p = .refilling k)
    (room : s.klistm.used + 2 < MAX_SRQ ∧ s.wakeUpSrq.used + 1 < MAX_SRQ) :
    Ok reservoir ({ s with phase := update s.phase p .idle }.put .refill) := by
  obtain ⟨rest, ws, lists, stock, callers⟩ := ok
  have depth := callers.depth p
  have off : s.phase p ≠ .waiting true := by rw [here]; nofun
  rw [if_neg off] at depth
  have same : ∀ q, (rest ++ [Entry.refill]).count (Entry.request true q) =
      rest.count (Entry.request true q) := by
    intro q
    rw [List.count_append]
    rfl
  refine ⟨_, _, .put (lists.same rfl rfl rfl rfl rfl) room.1 room.2, ⟨stock.index, stock.filling, stock.once⟩,
    callers.turn rfl (fun _ _ => rfl) (fun q _ => same q) ?_ nofun ?_⟩
  · rw [same]
    exact depth
  · rw [List.countP_append]
    show s.resem + _ + 0 ≤ s.resem + (_ + 1) + _
    omega

theorem Ok.release (room : s.klistm.used + 1 < MAX_SRQ ∧ s.wakeUpSrq.used + 1 < MAX_SRQ) :
    Ok reservoir (s.put (.release k)) := by
  obtain ⟨rest, ws, lists, stock, callers⟩ := ok
  refine ⟨_, _, lists.put room.1 room.2, ⟨stock.index, stock.filling, stock.once⟩, ?_, callers.blocked, ?_⟩
  · intro q
    rw [List.count_append]
    exact callers.depth q
  · rw [List.countP_append]
    exact callers.soft

/-! ## The wake-ups -/

/-- Another user of `wake_up_srq`. -/
theorem Ok.other (room : s.wakeUpSrq.used + 1 < MAX_SRQ) :
    Ok reservoir { s with wakeUpSrq := s.wakeUpSrq.put false } := by
  obtain ⟨rest, ws, lists, stock, callers⟩ := ok
  refine ⟨rest, _, ⟨lists.words, lists.wakes.put room, lists.pending, fun sleeps some => ?_⟩,
    ⟨stock.index, stock.filling, stock.once⟩, ⟨callers.depth, callers.blocked, callers.soft⟩⟩
  exact List.mem_append_left _ (lists.awake sleeps some)

theorem Ok.wakeUp (proper : Proper s (.handler : Event P)) (stepped : s.wakeUp = some s') :
    Ok reservoir s' := by
  obtain ⟨rest, ws, lists, stock, callers⟩ := ok
  obtain ⟨some, taken⟩ := Option.ite_none_left_eq_some.mp stepped
  cases taken
  obtain _ | ⟨w, ws⟩ := ws
  · exact absurd (lists.wakes.empty_iff.mpr rfl) some
  obtain ⟨head, wakes⟩ := lists.wakes.next
  obtain ⟨words, holds, fits⟩ := lists.words
  by_cases woken : s.wakeUpSrq.head = true ∧ s.pc = .asleep
  · rw [if_pos woken]
    rw [woken.2] at fits
    refine ⟨rest, ws, ⟨⟨words, holds, fits⟩, wakes, lists.pending, by rintro (at' | at') <;> cases at'⟩,
      stock.turn ?_ nofun nofun rfl rfl rfl rfl, ⟨callers.depth, callers.blocked, callers.soft⟩⟩
    rw [woken.2]
    nofun
  · rw [if_neg woken]
    refine ⟨rest, ws, ⟨⟨words, holds, fits⟩, wakes, lists.pending, fun sleeps left => ?_⟩,
      ⟨stock.index, stock.filling, stock.once⟩, ⟨callers.depth, callers.blocked, callers.soft⟩⟩
    have there := lists.awake sleeps left
    cases w with
    | false => exact (List.mem_cons.mp there).resolve_left nofun
    | true =>
        rcases sleeps with between | asleep
        · rcases proper between head with empty | another
          · have none := holds.empty_iff.mp empty
            rw [between] at fits
            exact absurd (flatMap_words_eq_nil.mp (fits.symm.trans none)) left
          · rwa [wakes.words] at another
        · exact absurd ⟨head, asleep⟩ woken

/-! ## The loop of `kthread_m` -/

theorem Ok.test (here : s.pc = .test) (stepped : s.kthreadM reservoir = some s') :
    Ok reservoir s' := by
  obtain ⟨rest, ws, lists, stock, callers⟩ := ok
  obtain ⟨words, holds, fits⟩ := lists.words
  have old : ∀ hard k, s.pc ≠ .store hard k := by rw [here]; nofun
  rw [here] at fits
  simp only [State.kthreadM, here] at stepped
  obtain _ | ⟨e, es⟩ := rest
  · rw [if_pos (holds.empty_iff.mpr fits)] at stepped
    cases stepped
    exact ⟨[], ws, ⟨⟨words, holds, fits⟩, lists.wakes, lists.pending, fun _ none => absurd rfl none⟩,
      stock.turn old nofun nofun rfl rfl rfl rfl, ⟨callers.depth, callers.blocked, callers.soft⟩⟩
  · have some : s.klistm.outIdx ≠ s.klistm.inIdx := by
      intro same
      have none := fits.symm.trans (holds.empty_iff.mp same)
      exact List.cons_ne_nil e es (flatMap_words_eq_nil.mp none)
    obtain rfl := fits
    rw [if_neg some] at stepped
    cases flag : e.flag with
    | some hard =>
        obtain ⟨w, two⟩ := Entry.words_of_flag flag
        rw [List.flatMap_cons, two] at holds
        rw [holds.next.1] at stepped
        cases stepped
        refine ⟨e :: es, ws, ⟨⟨_, holds, e, es, rfl, flag, by rw [two]⟩, lists.wakes, lists.pending, ?_⟩,
          stock.turn old nofun nofun rfl rfl rfl rfl, ⟨callers.depth, callers.blocked, callers.soft⟩⟩
        rintro (at' | at') <;> cases at'
    | none =>
        cases e with
        | request | refill => cases flag
        | release k =>
            rw [show s.klistm.head = .thread k from holds.next.1] at stepped
            cases stepped
            refine ⟨es, ws, ⟨⟨_, holds, .thread k, rfl⟩, lists.wakes, ?_, ?_⟩,
              stock.turn old nofun nofun rfl rfl rfl rfl, ⟨fun q => ?_, callers.blocked, ?_⟩⟩
            · refine lists.pending.trans ?_
              exact List.append_cons _ _ _
            · rintro (at' | at') <;> cases at'
            · have other : Entry.release k ≠ .request true q := nofun
              rw [← callers.depth q, List.count_cons_of_ne other]
            · refine callers.soft.trans_eq (congrArg _ ?_)
              exact List.countP_cons_of_neg Bool.false_ne_true

end

/-- The first caller is resumed. -/
theorem Callers.resume (callers : Callers (.request true p :: rest) s) :
    Callers rest (s.rtTaskResume p) := by
  have depth := callers.depth p
  have blocked := callers.blocked p
  rw [List.count_cons_self, Nat.cast_add, Nat.cast_one] at depth
  have next : (s.rtTaskResume p).suspdepth p = s.suspdepth p - 1 := update_self _ _ _
  have phase : (s.rtTaskResume p).phase = update s.phase p
      (if s.suspdepth p - 1 = 0 ∧ s.phase p = .blocked then .asking else s.phase p) := by
    rw [State.rtTaskResume]
    dsimp only
    split
    next => rfl
    next => exact (update_eq_self _ _).symm
  refine callers.turn phase (fun q other => update_of_ne other _ _) (fun q other => ?_) ?_ ?_ ?_
  · exact (List.count_cons_of_ne fun same => other (Entry.request.inj same).2.symm).symm
  · rw [next]
    split
    next woken =>
      rw [woken.2, if_neg nofun] at depth
      rw [if_neg nofun]
      omega
    next => omega
  · intro stays
    rw [next]
    split at stays
    next => cases stays
    next more =>
      have positive := blocked stays
      have other : ¬s.suspdepth p - 1 = 0 := fun zero => more ⟨zero, stays⟩
      omega
  · rw [List.countP_cons_of_neg Bool.false_ne_true]
    split
    next woken =>
      rw [woken.2]
      rfl
    next => rfl

/-- The semaphore goes up for an entry. -/
theorem Callers.up {e : Entry P} (callers : Callers (e :: rest) s) (flag : e.flag = some false) :
    Callers rest { s with resem := s.resem + 1 } := by
  have ups : e.ups = true := decide_eq_true flag
  have soft := callers.soft
  rw [List.countP_cons_of_pos ups] at soft
  refine ⟨fun q => ?_, callers.blocked, ?_⟩
  · have other : e ≠ .request true q := by
      rintro rfl
      cases flag
    rw [← callers.depth q, List.count_cons_of_ne other]
  · show tally s.phase (.waiting false) ≤ s.resem + 1 + _
    omega

omit [DecidableEq P] [Fintype P] in
/-- A request or a refill is worked on. -/
theorem Lists.keep {rest : List (Entry P)} (lists : Lists rest ws s) (holds : s.klistm.Holds words)
    (fits : Fits rest words s'.pc) (awake : s'.pc ≠ .between ∧ s'.pc ≠ .asleep)
    (klistm : s'.klistm = s.klistm) (wakeUpSrq : s'.wakeUpSrq = s.wakeUpSrq)
    (puts : s'.puts = s.puts) (taken : s'.taken = s.taken) : Lists rest ws s' := by
  refine ⟨⟨words, klistm ▸ holds, fits⟩, wakeUpSrq ▸ lists.wakes, ?_, ?_⟩
  · rw [Pending, puts, taken]
    exact lists.pending
  · rintro (between | asleep)
    · exact absurd between awake.1
    · exact absurd asleep awake.2

theorem Ok.kthreadM (ok : Ok reservoir s) (stepped : s.kthreadM reservoir = some s') :
    Ok reservoir s' := by
  have whole := ok
  obtain ⟨rest, ws, lists, stock, callers⟩ := ok
  obtain ⟨words, holds, fits⟩ := lists.words
  cases here : s.pc with
  | test => exact whole.test here stepped
  | asleep =>
      simp only [State.kthreadM, here] at stepped
      cases stepped
  | between =>
      simp only [State.kthreadM, here] at stepped
      cases stepped
      rw [here] at fits
      exact ⟨rest, ws, ⟨⟨words, holds, fits⟩, lists.wakes, lists.pending, fun _ => lists.awake (.inl here)⟩,
        stock.turn (by rw [here]; nofun) nofun nofun rfl rfl rfl rfl,
        ⟨callers.depth, callers.blocked, callers.soft⟩⟩
  | check hard =>
      simp only [State.kthreadM, here] at stepped
      cases stepped
      rw [here] at fits
      refine ⟨rest, ws, lists.keep holds ?_ ?_ rfl rfl rfl rfl,
        stock.turn (by rw [here]; nofun) ?_ ?_ rfl rfl rfl rfl,
        ⟨callers.depth, callers.blocked, callers.soft⟩⟩
      · dsimp only
        split <;> exact fits
      · dsimp only
        split <;> exact ⟨nofun, nofun⟩
      · dsimp only
        split <;> nofun
      · dsimp only
        split
        next some => exact fun _ _ => some
        next => nofun
  | create hard =>
      simp only [State.kthreadM, here] at stepped
      cases stepped
      rw [here] at fits
      exact ⟨rest, ws, lists.keep holds fits ⟨nofun, nofun⟩ rfl rfl rfl rfl, stock.create here,
        ⟨callers.depth, callers.blocked, callers.soft⟩⟩
  | store hard k =>
      simp only [State.kthreadM, here] at stepped
      cases stepped
      rw [here] at fits
      exact ⟨rest, ws, lists.keep holds fits ⟨nofun, nofun⟩ rfl rfl rfl rfl, stock.store here,
        ⟨callers.depth, callers.blocked, callers.soft⟩⟩
  | advance hard =>
      simp only [State.kthreadM, here] at stepped
      cases stepped
      rw [here] at fits
      obtain ⟨e, es, rfl, flag, rfl⟩ := fits
      obtain ⟨w, two⟩ := Entry.words_of_flag flag
      rw [two] at holds
      refine ⟨e :: es, ws, ⟨⟨_, holds.next.2, e, es, rfl, flag, by rw [two]; rfl⟩, lists.wakes,
        lists.pending, ?_⟩, stock.turn (by rw [here]; nofun) nofun nofun rfl rfl rfl rfl,
        ⟨callers.depth, callers.blocked, callers.soft⟩⟩
      rintro (at' | at') <;> cases at'
  | wake hard =>
      simp only [State.kthreadM, here] at stepped
      cases stepped
      rw [here] at fits
      obtain ⟨e, es, rfl, flag, rfl⟩ := fits
      obtain ⟨w, two⟩ := Entry.words_of_flag flag
      rw [two] at holds
      have head : s.klistm.head = w := holds.next.1
      rw [head]
      have pending : s.puts.map Entry.words =
          s.taken ++ [[.num hard, w]] ++ es.map Entry.words := by
        rw [← two]
        exact lists.pending.trans (List.append_cons _ _ _)
      have fits : Fits es (w :: es.flatMap Entry.words) .finish := ⟨w, rfl⟩
      cases hard with
      | false =>
          refine ⟨es, ws, ⟨⟨_, holds, fits⟩, lists.wakes, pending, ?_⟩,
            stock.turn (by rw [here]; nofun) nofun nofun rfl rfl rfl rfl, ?_⟩
          · rintro (at' | at') <;> cases at'
          · have up := callers.up flag
            exact ⟨up.depth, up.blocked, up.soft⟩
      | true =>
          cases e with
          | refill | release => cases flag
          | request hard p =>
              cases flag
              cases two
              refine ⟨es, ws, ⟨⟨_, holds, fits⟩, lists.wakes, pending, ?_⟩,
                stock.turn (by rw [here]; nofun) nofun nofun rfl rfl rfl rfl, ?_⟩
              · rintro (at' | at') <;> cases at'
              · have resumed := callers.resume
                exact ⟨resumed.depth, resumed.blocked, resumed.soft⟩
  | finish =>
      simp only [State.kthreadM, here] at stepped
      cases stepped
      rw [here] at fits
      obtain ⟨w, rfl⟩ := fits
      refine ⟨rest, ws, ⟨⟨_, holds.next.2, rfl⟩, lists.wakes, lists.pending, ?_⟩,
        stock.turn (by rw [here]; nofun) nofun nofun rfl rfl rfl rfl,
        ⟨callers.depth, callers.blocked, callers.soft⟩⟩
      rintro (at' | at') <;> cases at'

/-! ## Progress -/

/-- The steps of `kthread_m` until it is done with a word. -/
def Pc.steps : Pc → Nat
  | .between => 8
  | .asleep => 7
  | .test => 6
  | .check _ => 5
  | .create _ => 4
  | .store _ _ => 3
  | .advance _ => 2
  | .wake _ => 1
  | .finish => 0

/-- A bound of the steps that are left to do. -/
def remaining (s : State P) : Nat :=
  10 * s.klistm.used.toNat + s.wakeUpSrq.used.toNat + s.pc.steps

theorem Ok.step {e : Event P} (ok : Ok reservoir s) (proper : Proper s e)
    (stepped : step reservoir e s = some s') : Ok reservoir s' := by
  cases e with
  | ask p =>
      obtain ⟨here, rfl⟩ := (Option.ite_none_right_eq_some.mp stepped).imp id Option.some.inj
      exact ok.ask here
  | request p hard =>
      obtain ⟨here, rfl⟩ := (Option.ite_none_right_eq_some.mp stepped).imp id Option.some.inj
      exact ok.request here proper
  | suspend p owndres =>
      obtain ⟨here, rfl⟩ := (Option.ite_none_right_eq_some.mp stepped).imp id Option.some.inj
      exact ok.suspend here
  | down p =>
      obtain ⟨⟨here, some⟩, rfl⟩ :=
        (Option.ite_none_right_eq_some.mp stepped).imp id Option.some.inj
      exact ok.down here some
  | refill p =>
      simp only [Kthread.step] at stepped
      split at stepped
      next k here =>
        cases stepped
        exact ok.refill here proper
      next => cases stepped
  | release p k =>
      obtain ⟨-, rfl⟩ := (Option.ite_none_right_eq_some.mp stepped).imp id Option.some.inj
      exact ok.release proper
  | other =>
      cases stepped
      exact ok.other proper
  | handler => exact ok.wakeUp proper stepped
  | kthreadM => exact ok.kthreadM stepped

/-- Everybody is woken when nothing is left to do. -/
theorem Callers.allWoken (callers : Callers [] s) : AllWoken s := by
  refine ⟨fun p blocked => ?_, callers.soft⟩
  have depth := callers.depth p
  have positive := callers.blocked p blocked
  rw [blocked, if_neg nofun] at depth
  simp only [List.count_nil] at depth
  omega

omit [Fintype P] in
theorem wakeCaller_lists {w : Word P} : (s.wakeCaller hard w).klistm = s.klistm ∧
    (s.wakeCaller hard w).wakeUpSrq = s.wakeUpSrq := by
  cases hard
  · exact ⟨rfl, rfl⟩
  · cases w <;> exact ⟨rfl, rfl⟩

omit [Fintype P] in
/-- A step of `kthread_m` that does not find its list empty. -/
theorem kthreadM_remaining (lists : Lists rest ws s) (left : s.pc = .test → rest ≠ [])
    (stepped : s.kthreadM reservoir = some s') : remaining s' < remaining s := by
  obtain ⟨words, holds, fits⟩ := lists.words
  cases here : s.pc with
  | asleep =>
      simp only [State.kthreadM, here] at stepped
      cases stepped
  | test =>
      rw [here] at fits
      have busy : s.klistm.outIdx ≠ s.klistm.inIdx := by
        intro same
        have none := fits.symm.trans (holds.empty_iff.mp same)
        exact left here (flatMap_words_eq_nil.mp none)
      simp only [State.kthreadM, here] at stepped
      rw [if_neg busy] at stepped
      split at stepped <;>
        (cases stepped
         simp only [remaining, here, Pc.steps]
         omega)
  | between | create | store =>
      simp only [State.kthreadM, here] at stepped
      cases stepped
      simp only [remaining, here, Pc.steps]
      omega
  | wake hard =>
      simp only [State.kthreadM, here] at stepped
      cases stepped
      obtain ⟨klistm, wakeUpSrq⟩ : (s.wakeCaller hard s.klistm.head).klistm = s.klistm ∧
          (s.wakeCaller hard s.klistm.head).wakeUpSrq = s.wakeUpSrq := wakeCaller_lists
      simp only [remaining, here, klistm, wakeUpSrq, Pc.steps]
      omega
  | check hard =>
      simp only [State.kthreadM, here] at stepped
      cases stepped
      simp only [remaining, here]
      split <;> simp only [Pc.steps] <;> omega
  | advance hard =>
      simp only [State.kthreadM, here] at stepped
      cases stepped
      rw [here] at fits
      obtain ⟨e, es, rfl, flag, rfl⟩ := fits
      obtain ⟨w, two⟩ := Entry.words_of_flag flag
      rw [two] at holds
      have less := holds.used_next
      simp only [remaining, here, Pc.steps]
      omega
  | finish =>
      simp only [State.kthreadM, here] at stepped
      cases stepped
      rw [here] at fits
      obtain ⟨w, rfl⟩ := fits
      have less := holds.used_next
      simp only [remaining, here, Pc.steps]
      omega

/-- A step of `kthread_m`, or of the handler while it sleeps, is a step less. -/
theorem Ok.work (ok : Ok reservoir s) : AllWoken s ∨
    Ok reservoir (work reservoir s) ∧ remaining (work reservoir s) < remaining s := by
  have whole := ok
  obtain ⟨rest, ws, lists, stock, callers⟩ := ok
  rcases eq_or_ne rest [] with rfl | left
  · exact .inl callers.allWoken
  refine .inr ?_
  rw [Kthread.work]
  cases goes : Kthread.step reservoir .kthreadM s with
  | some s' => exact ⟨whole.kthreadM goes, kthreadM_remaining lists (fun _ => left) goes⟩
  | none =>
      have here : s.pc = .asleep := by
        cases pc : s.pc with
        | asleep => rfl
        | test =>
            simp only [Kthread.step, State.kthreadM, pc] at goes
            split at goes
            next => cases goes
            next => split at goes <;> cases goes
        | _ =>
            simp only [Kthread.step, State.kthreadM, pc] at goes
            cases goes
      have there := lists.awake (.inr here) left
      obtain _ | ⟨w, ws⟩ := ws
      · cases there
      have some : s.wakeUpSrq.outIdx ≠ s.wakeUpSrq.inIdx := fun same =>
        List.cons_ne_nil _ _ (lists.wakes.empty_iff.mp same)
      have woken : s.wakeUp = _ := if_neg some
      have less := lists.wakes.used_next
      dsimp only [Kthread.step]
      rw [woken, Option.getD_some]
      refine ⟨whole.wakeUp (fun between => ?_) woken, ?_⟩
      · cases here.symm.trans between
      · simp only [remaining, here]
        split <;> simp only [Pc.steps] <;> omega

/-- Everybody who waits is woken. -/
theorem Ok.woken (ok : Ok reservoir s) : ∃ m, AllWoken ((Kthread.work reservoir)^[m] s) := by
  induction steps : remaining s using Nat.strong_induction_on generalizing s with
  | _ n ih =>
      rcases ok.work with woken | ⟨next, less⟩
      · exact ⟨0, woken⟩
      · obtain ⟨m, woken⟩ := ih _ (steps ▸ less) next rfl
        exact ⟨m + 1, woken⟩

/-! ## Runs -/

omit [DecidableEq P] [Fintype P] in
/-- A fresh list in which `n` words are put. -/
theorem Klist.Holds.fresh {α : Type} {w : α} {n : Nat} {i : Int} (small : (n : Int) < MAX_SRQ)
    (behind : i = n % MAX_SRQ) :
    Klist.Holds { task := fun _ => w, inIdx := i, outIdx := 0 } (List.replicate n w) := by
  have positive : (0 : Int) < MAX_SRQ := by decide
  refine ⟨⟨positive, ⟨le_refl _, positive⟩, ?_, rfl, rfl, ?_⟩, ?_⟩
  · rw [List.length_replicate, Int.zero_add]
    exact behind
  · simp only [window, List.length_replicate, List.map_const', List.length_range]
  · rw [List.length_replicate]
    exact small

theorem boot_ok (room : 2 * (reservoir : Int) < MAX_SRQ) : Ok reservoir (boot P reservoir) := by
  have small : ((2 * reservoir : Nat) : Int) < MAX_SRQ := by
    push_cast
    exact room
  have words : (List.replicate reservoir (Entry.refill : Entry P)).flatMap Entry.words =
      List.replicate (2 * reservoir) (.num false) := by
    rw [List.flatMap_replicate, Nat.mul_comm]
    exact List.flatten_replicate_replicate (m := 2) (a := Word.num false)
  refine ⟨List.replicate reservoir .refill, [], ⟨⟨_, .fresh small ?_, words.symm⟩,
    .fresh (n := 0) (by decide) rfl, rfl, ?_⟩, ⟨⟨le_refl _, Int.natCast_nonneg _⟩, ?_, ?_⟩,
    ⟨fun p => ?_, nofun, ?_⟩⟩
  · rw [Nat.cast_mul]
    rfl
  · rintro (at' | at') <;> cases at'
  · rintro hard (at' | ⟨k, at'⟩) <;> cases at'
  · intro k
    rfl
  · rw [List.count_eq_zero.mpr fun here => by cases List.eq_of_mem_replicate here]
    rfl
  · have nobody : tally (boot P reservoir).phase (.waiting false) = 0 :=
      tally_eq_zero fun p here => by cases here
    rw [nobody]
    exact Nat.zero_le _

/-- `kthread_m` wakes a caller when the reservoir is not empty. -/
theorem Ok.refilled (ok : Ok reservoir s) (positive : 1 ≤ reservoir)
    (stepped : s.kthreadM reservoir = some s') (here : s'.pc = .advance hard) : 0 < s'.taskidx := by
  obtain ⟨rest, ws, lists, stock, callers⟩ := ok
  have low := stock.index.1
  cases pc : s.pc with
  | check =>
      simp only [State.kthreadM, pc] at stepped
      cases stepped
      dsimp only at here ⊢
      split at here
      next => cases here
      next full => omega
  | store =>
      simp only [State.kthreadM, pc] at stepped
      cases stepped
      dsimp only
      omega
  | test =>
      simp only [State.kthreadM, pc] at stepped
      split at stepped
      next => cases stepped; cases here
      next => split at stepped <;> (cases stepped; cases here)
  | _ =>
      simp only [State.kthreadM, pc] at stepped
      cases stepped <;> cases here

theorem Ok.served {tr : List (Record (State P) (Event P))} (ok : Ok reservoir s)
    (refilled : ∀ r ∈ tr, ∀ hard, r.event = .kthreadM → r.post.pc = .advance hard →
      0 < r.post.taskidx) : Served reservoir tr s := by
  have woken := ok.woken
  obtain ⟨rest, ws, lists, stock, callers⟩ := ok
  obtain ⟨words, holds, fits⟩ := lists.words
  refine ⟨⟨rest, lists.pending, fun here => ?_⟩, stock.index, fun k made => ?_, fun h hh => ?_,
    refilled, woken⟩
  · rw [holds.words]
    rcases here with here | here | here <;> (rw [here] at fits; exact fits)
  · have once := stock.once k
    rwa [if_pos made] at once
  · by_contra unmade
    have once := stock.once h.2
    have there : 0 < (s.handed.map Prod.snd).count h.2 :=
      List.count_pos_iff.mpr (List.mem_map_of_mem hh)
    rw [if_neg unmade] at once
    omega

end

/-- As long as the lists have room, and no wake-up comes between the test of `kthread_m` and its
sleep, the requests are worked on as they were put, each thread is given to one caller, and the
callers that wait are woken after the reservoir has been refilled. -/
theorem reservoir_served [Fintype P] {reservoir : Nat} {tr : List (Record (State P) (Event P))}
    {s : State P} (positive : 1 ≤ reservoir) (room : 2 * (reservoir : Int) < MAX_SRQ)
    (run : Run (step reservoir) Proper (boot P reservoir) tr s) : Served reservoir tr s := by
  have kept : Ok reservoir s ∧ ∀ r ∈ tr, ∀ hard, r.event = .kthreadM → r.post.pc = .advance hard →
      0 < r.post.taskidx := by
    refine run.each (R := fun r => ∀ hard, r.event = .kthreadM → r.post.pc = .advance hard →
      0 < r.post.taskidx) (boot_ok room) ?_
    rintro s s' e ok proper stepped
    refine ⟨ok.step proper stepped, fun hard event here => ?_⟩
    cases event
    exact ok.refilled positive stepped here
  exact kept.1.served kept.2

/-- The first caller takes the thread, and the second is suspended until there is another. -/
theorem reservoir_served_one : ∃ tr s, Served (P := Bool) 1 tr s ∧
    s.handed = [(true, 0), (false, 1)] := by
  obtain ⟨tr, s, run, here⟩ := Run.of_execute (step 1) Proper (boot Bool 1)
    (List.replicate 9 .kthreadM ++ [.ask true, .refill true, .ask false, .request false true,
      .suspend false false, .handler] ++ List.replicate 12 .kthreadM ++ [.ask false])
    (fun s => s.handed = [(true, 0), (false, 1)]) (by decide +kernel)
  exact ⟨tr, s, reservoir_served (by decide) (by decide) run, of_decide_eq_true here⟩

/-- A reservoir of 64 is never filled: the 128 words of the orders to fill it leave the list as if
it were empty. -/
theorem not_served_full : ¬∀ reservoir : Nat, 1 ≤ reservoir →
    ∀ (tr : List (Record (State Unit) (Event Unit))) (s : State Unit),
      Run (step reservoir) (fun _ _ => True) (boot Unit reservoir) tr s → Served reservoir tr s := by
  intro served
  obtain ⟨rest, pending, intact⟩ := (served 64 (by decide) [] _ .nil).intact
  have empty : (boot Unit 64).klistm.words = [] := by decide
  have none := flatMap_words_eq_nil.mp ((intact (.inl rfl)).symm.trans empty)
  have length := congrArg List.length pending
  rw [none] at length
  revert length
  decide

end Rtai.Lxrt.Kthread
