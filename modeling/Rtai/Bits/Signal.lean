import Rtai.Bits.Masks
import Rtai.Up.Lists
import Mathlib.Data.Fintype.Card
import Mathlib.Data.Fin.VecNotation

/-!
# A signal on the links

`rt_bits_signal` with the `prev`/`next` links of the queue, the ready list and the timed
list.  The loop unlinks nodes that it is standing on: a node that leaves the queue keeps its
own links, so the loop goes on behind it.  On the uniprocessor `rt_schedule_map` does
nothing.

`Sound ts k` says that the links of the queue run through the tasks `ts` and that the two
lists of the scheduler agree with the state words.  `signalLoop_spec` is about any waiters,
with tests of one mask or of two; a wait that blocks and a signal keep `Sound`.
-/

namespace Rtai.Bits

open Function Rtai.Lib Rtai.Up

/-- A node of the queue: `bits->queue`, or the `queue` of a task. -/
inductive Node (n : Nat) where
  | bits
  | task (t : Up.Task n)
deriving DecidableEq

/-- The object, and what its services read and write of the tasks. -/
structure Kernel (n : Nat) where
  disp : Dispatcher n
  /-- `bits->magic == RT_BITS_MAGIC`. -/
  magic : Bool
  mask : Word
  /-- The links of `bits->queue` and of the `queue` of every task. -/
  queue : Links (Node n)
  /-- `blocked_on` is not `NOTHING`. -/
  blockedOn : Up.Task n → Bool
  prioPassedTo : Up.Task n → Option (Up.Task n)
  retval : Up.Task n → Retval

namespace Kernel

variable {n : Nat}

def enqueueBlocked (t : Up.Task n) (k : Kernel n) : Kernel n :=
  { k with
    blockedOn := update k.blockedOn t true
    queue := k.queue.insertBefore (.task t) .bits }

def dequeueBlocked (t : Up.Task n) (k : Kernel n) : Kernel n :=
  { k with
    prioPassedTo := update k.prioPassedTo t none
    queue := k.queue.unlink (.task t)
    blockedOn := update k.blockedOn t false }

/-- `if ((task->state & ~(READY | RUNNING)) && (task->state &= ~(SEMAPHORE | DELAYED)) == READY)
rt_enq_ready_task(task)`. -/
def makeReady (t : Up.Task n) (k : Kernel n) : Option (Kernel n) :=
  if (k.disp.state t).clear READY ≠ DEAD then
    let disp := k.disp.setState t ((k.disp.state t).clear (SEMAPHORE.set DELAYED))
    if disp.state t = READY then (disp.enqReadyTask t).map fun disp => { k with disp := disp }
    else some { k with disp := disp }
  else some k

/-- What the loop does with a waiter whose test is true. -/
def wake (t : Up.Task n) (k : Kernel n) : Option (Kernel n) :=
  let k := k.dequeueBlocked t
  { k with disp := k.disp.remTimedTask t }.makeReady t

/-- `test_fun[TEST_FUN(task)](bits, TEST_MASK(task))`, with `behind` the word behind the
parameter in the call. -/
def callTest (behind : Word) (t : Up.Task n) (k : Kernel n) : Option Bool :=
  testFuns[(TEST_FUN (k.retval t)).toNat]?.map fun test =>
    test k.mask ⟨TEST_MASK (k.retval t), behind⟩

/-- The loop of `rt_bits_signal` from the node `q` on. -/
def signalLoop (behind : Up.Task n → Word) : Nat → Node n → Kernel n → Option (Kernel n)
  | 0, _, _ => none
  | _ + 1, .bits, k => some k
  | i + 1, .task t, k => do
      let test ← k.callTest (behind t) t
      let k ← if test then k.wake t else some k
      signalLoop behind i (k.queue.next (.task t)) k

def rtBitsSignal (setfun : Nat) (masks : Param) (behind : Up.Task n → Word) (k : Kernel n) :
    Option (Kernel n × Word) :=
  if k.magic then do
    let exec ← execFuns[setfun]?
    let k := { k with mask := exec k.mask masks }
    let masks := k.mask
    let k ← k.signalLoop behind (fuel n) (k.queue.next .bits)
    return (k, masks)
  else some (k, BitVec.ofInt 32 BITS_ERR)

/-- What a wait leaves in `retval` of the current task, and how it blocks. -/
def block (testfun testmasks : Word) (k : Kernel n) : Kernel n :=
  let self := k.disp.current
  { k with
    retval := update k.retval self (leaveTest testfun testmasks (k.retval self))
    disp := k.disp.blockCurrent SEMAPHORE }.enqueueBlocked self

/-- `rt_bits_wait` up to `rt_schedule`. -/
def rtBitsWait (testfun : Word) (testmasks : Param) (exitfun : Nat) (exitmasks : Param)
    (k : Kernel n) : Option (Kernel n) := do
  let test ← testFuns[testfun.toNat]?
  if test k.mask testmasks then do
    let exec ← execFuns[exitfun]?
    return { k with mask := exec k.mask exitmasks }
  else return k.block testfun testmasks.masks

end Kernel

/-! ## Enough iterations -/

section Enough

variable {n : Nat} {d : Dispatcher n} {t : Up.Task n} {P : Up.Task n → Prop}

/-- A ring of tasks behind a head has no more nodes than there are tasks. -/
theorem length_le_of_nodup {l : List (Up.Task n)} (h : l.Nodup) : l.length ≤ n + 1 := by
  simpa using h.length_le_card

/-- Linux ends the search for the place of the task. -/
def Placeable (d : Dispatcher n) (t : Up.Task n) : Prop :=
  d.priority rtLinuxTask < 0 ∨ d.priority t < d.priority rtLinuxTask

theorem enqReadyTask_total (h : ReadyIs d.ready P) (place : Placeable d t) :
    ∃ d', d.enqReadyTask t = some d' := by
  obtain ⟨l, r, -⟩ := h
  have short : l.length < fuel n := by
    have := length_le_of_nodup r.nodup
    rw [List.length_cons] at this
    exact Nat.lt_of_succ_le (Nat.le_succ_of_le this)
  let past : Up.Task n → Bool := fun u => d.priority u < 0 || d.priority t < d.priority u
  have stop : past rtLinuxTask = true := by simpa [Placeable, past] using place
  have position : ∃ x, d.readyPosition (d.priority t) = some x := by
    simp only [Dispatcher.readyPosition]
    split
    next => exact ⟨_, rfl⟩
    next late =>
      cases l with
      | nil =>
          have alone : d.ready.next rtLinuxTask = rtLinuxTask := r.next_head
          have next := (show Ring d.ready rtLinuxTask ([] ++ []) from r).seek_total stop short
          rw [alone, alone]
          exact next
      | cons x l =>
          rw [show d.ready.next rtLinuxTask = x from r.next_head,
            (show Ring d.ready rtLinuxTask ([] ++ x :: l) from r).next_headD]
          exact (show Ring d.ready rtLinuxTask ([x] ++ l) from r).seek_total stop
            (Nat.lt_of_succ_lt short)
  obtain ⟨x, hx⟩ := position
  exact ⟨d.linkReady t x, by rw [Dispatcher.enqReadyTask, hx]; rfl⟩

theorem release_total {ordered : Prop} (h : d.Linked ordered none) (mask : TaskState)
    (place : Placeable d t) : ∃ p, d.release t mask = some p := by
  simp only [Dispatcher.release, Dispatcher.makeReady]
  split
  next => exact ⟨_, rfl⟩
  next =>
    split
    next =>
      rw [Dispatcher.remTimedTask_eq]
      obtain ⟨d', e⟩ := enqReadyTask_total (d := { d with
        timed := (d.remTimedTask t).timed
        state := update d.state t ((d.state t).clear mask) }) h.ready place
      exact ⟨(d', true), by rw [Option.bind_eq_bind]; exact congrArg (Option.bind · _) e⟩
    next => exact ⟨_, rfl⟩

end Enough

/-! ## Waking one waiter -/

namespace Kernel

variable {n : Nat} {k k' : Kernel n} {t u : Up.Task n} {ordered : Prop}
  {ts l₁ l₂ : List (Up.Task n)} {behind : Up.Task n → Word} {met : Up.Task n → Bool}

/-- The lists of the scheduler agree with the state words, the links of the queue run through
`ts`, and these have a place on the ready list. -/
structure Sound (ordered : Prop) (ts : List (Up.Task n)) (k : Kernel n) : Prop where
  lists : k.disp.Linked ordered none
  queue : Ring k.queue .bits (ts.map .task)
  place : ∀ t ∈ ts, Placeable k.disp t

/-- The bits that a signal clears. -/
def released (st : TaskState) : TaskState := st.clear (SEMAPHORE.set DELAYED)

/-- Only `READY` and `DEAD` have no bit besides `READY`. -/
theorem clear_ready (st : TaskState) : st.clear READY = DEAD ↔ st = READY ∨ st = DEAD := by
  obtain ⟨ready, suspended, delayed, semaphore, send, receive, rpc, ret, mbxsusp⟩ := st
  cases ready <;> simp [TaskState.clear, READY, DEAD]

theorem makeReady_eq (t : Up.Task n) (k : Kernel n) :
    k.makeReady t =
      (k.disp.makeReady t (SEMAPHORE.set DELAYED)).map fun p => { k with disp := p.1 } := by
  simp only [makeReady, Dispatcher.makeReady]
  by_cases ready : k.disp.state t = READY
  · simp [ready, (clear_ready READY).mpr (.inl rfl)]
  · rw [if_neg ready]
    by_cases dead : k.disp.state t = DEAD
    · have same : k.disp.setState t ((k.disp.state t).clear (SEMAPHORE.set DELAYED)) = k.disp := by
        rw [dead]
        show { k.disp with state := update k.disp.state t DEAD } = k.disp
        rw [← dead, update_eq_self]
      have asleep : ¬(k.disp.state t).clear READY ≠ DEAD := not_not.mpr ((clear_ready _).mpr (.inr dead))
      rw [same, if_neg asleep, if_neg ready]
      rfl
    · rw [if_pos fun e => ((clear_ready _).mp e).elim ready dead]
      split
      next => cases Dispatcher.enqReadyTask t _ <;> rfl
      next => rfl

/-- The waiter leaves the queue and the timed list. -/
theorem Sound.wake (h : k.Sound ordered (l₁ ++ t :: l₂)) : ∃ L T,
    k.wake t = some { k.dequeueBlocked t with disp := { k.disp with
      ready := L
      timed := T
      state := update k.disp.state t (released (k.disp.state t)) } } ∧
    { k.dequeueBlocked t with disp := { k.disp with
      ready := L
      timed := T
      state := update k.disp.state t (released (k.disp.state t)) } }.Sound ordered (l₁ ++ l₂) := by
  have ring : Ring k.queue .bits (l₁.map .task ++ .task t :: l₂.map .task) := by
    rw [← List.map_cons, ← List.map_append]
    exact h.queue
  have here : t ∈ l₁ ++ t :: l₂ := List.mem_append_right _ List.mem_cons_self
  obtain ⟨p, e⟩ := release_total h.lists (SEMAPHORE.set DELAYED) (h.place t here)
  obtain ⟨lists, L, T, same⟩ := h.lists.release rfl p e
  have state : (if k.disp.state t = READY then READY
      else (k.disp.state t).clear (SEMAPHORE.set DELAYED)) = released (k.disp.state t) := by
    split
    next ready => rw [ready]; rfl
    next => rfl
  rw [state] at same
  refine ⟨L, T, ?_, ?_, ?_, ?_⟩
  · have e' : (k.disp.remTimedTask t).makeReady t (SEMAPHORE.set DELAYED) = some p := e
    show ({ k.dequeueBlocked t with disp := k.disp.remTimedTask t } : Kernel n).makeReady t = _
    rw [makeReady_eq, e', Option.map_some, same]
  · rw [← same]
    exact lists
  · rw [List.map_append]
    exact ring.unlink
  · intro u hu
    refine h.place u ?_
    rw [List.mem_append] at hu ⊢
    exact hu.imp_right (List.mem_cons_of_mem t)

/-! ## The loop -/

/-- What the loop leaves when it wakes the tasks `ws`. -/
structure Woken (ws : List (Up.Task n)) (k k' : Kernel n) : Prop where
  mask : k'.mask = k.mask
  retval : k'.retval = k.retval
  resumeTime : k'.disp.resumeTime = k.disp.resumeTime
  blockedOn : ∀ u, k'.blockedOn u = if u ∈ ws then false else k.blockedOn u
  state : ∀ u, k'.disp.state u = if u ∈ ws then released (k.disp.state u) else k.disp.state u

theorem Woken.refl (k : Kernel n) : Woken [] k k :=
  ⟨rfl, rfl, rfl, fun _ => (if_neg List.not_mem_nil).symm, fun _ => (if_neg List.not_mem_nil).symm⟩

/-- One more task, which is none of those woken later. -/
theorem Woken.cons {ws : List (Up.Task n)} {L T : Links (Up.Task n)} (fresh : t ∉ ws)
    (h : Woken ws { k.dequeueBlocked t with disp := { k.disp with
      ready := L
      timed := T
      state := update k.disp.state t (released (k.disp.state t)) } } k') :
    Woken (t :: ws) k k' := by
  refine ⟨h.mask, h.retval, h.resumeTime, fun u => ?_, fun u => ?_⟩
  · rw [h.blockedOn u]
    show (if u ∈ ws then false else update k.blockedOn t false u) = _
    by_cases e : u = t
    · subst e
      simp [fresh]
    · simp [e]
  · rw [h.state u]
    show (if u ∈ ws then released (update k.disp.state t (released (k.disp.state t)) u)
      else update k.disp.state t (released (k.disp.state t)) u) = _
    by_cases e : u = t
    · subst e
      simp [fresh]
    · simp [e]

/-- The loop takes away the waiters whose tests are true. -/
theorem signalLoop_spec {i : Nat} (h : k.Sound ordered (l₁ ++ l₂))
    (tests : ∀ t ∈ l₂, k.callTest (behind t) t = some (met t)) (hi : l₂.length < i) :
    ∃ k', k.signalLoop behind i ((l₂.map Node.task).headD .bits) = some k' ∧
      k'.Sound ordered (l₁ ++ l₂.filter fun t => !met t) ∧ Woken (l₂.filter met) k k' := by
  induction l₂ generalizing k l₁ i with
  | nil =>
      obtain ⟨i, rfl⟩ := Nat.exists_eq_add_one_of_ne_zero (Nat.ne_of_gt hi)
      exact ⟨k, rfl, h, .refl k⟩
  | cons t l₂ ih =>
      obtain ⟨i, rfl⟩ := Nat.exists_eq_add_one_of_ne_zero (Nat.ne_of_gt (Nat.zero_lt_of_lt hi))
      have hi : l₂.length < i := Nat.lt_of_succ_lt_succ hi
      have ring : Ring k.queue .bits (l₁.map .task ++ .task t :: l₂.map .task) := by
        rw [← List.map_cons, ← List.map_append]
        exact h.queue
      have next : k.queue.next (.task t) = (l₂.map Node.task).headD .bits := ring.next_headD
      simp only [List.map_cons, List.headD_cons, signalLoop, tests t List.mem_cons_self]
      cases meets : met t with
      | true =>
          obtain ⟨L, T, woken, sound⟩ := h.wake
          have fresh : t ∉ l₂ := by
            have nodup := (List.nodup_cons.mp ring.nodup).2
            have := (List.nodup_cons.mp (List.nodup_append.mp nodup).2.1).1
            exact fun m => this (List.mem_map_of_mem m)
          obtain ⟨k', loop, sound', rest⟩ := ih sound (fun u hu => tests u (List.mem_cons_of_mem t hu)) hi
          refine ⟨k', ?_, ?_, ?_⟩
          · rw [Option.bind_eq_bind, Option.bind_some, if_pos rfl, woken, Option.bind_eq_bind,
              Option.bind_some]
            show signalLoop behind i ((k.queue.unlink (.task t)).next (.task t)) _ = some k'
            rw [k.queue.unlink_next, next]
            exact loop
          · rw [List.filter_cons_of_neg (by simp [meets])]
            exact sound'
          · rw [List.filter_cons_of_pos meets]
            exact rest.cons fun m => fresh (List.mem_filter.mp m).1
      | false =>
          rw [List.append_cons] at h
          obtain ⟨k', loop, sound', rest⟩ := ih h (fun u hu => tests u (List.mem_cons_of_mem t hu)) hi
          refine ⟨k', ?_, ?_, ?_⟩
          · rw [Option.bind_eq_bind, Option.bind_some, if_neg Bool.false_ne_true,
              Option.bind_eq_bind, Option.bind_some, next]
            exact loop
          · rw [List.filter_cons_of_pos (by simp [meets])]
            rw [← List.append_cons] at sound'
            exact sound'
          · rw [List.filter_cons_of_neg (by simp [meets])]
            exact rest

/-- The signal applies its operation, and its loop starts at the first waiter. -/
theorem rtBitsSignal_spec {setfun : Nat} {exec : Word → Param → Word} {masks : Param}
    (h : k.Sound ordered ts) (magic : k.magic = true) (op : execFuns[setfun]? = some exec)
    (tests : ∀ t ∈ ts, { k with mask := exec k.mask masks }.callTest (behind t) t = some (met t)) :
    ∃ k', k.rtBitsSignal setfun masks behind = some (k', exec k.mask masks) ∧
      k'.Sound ordered (ts.filter fun t => !met t) ∧
      Woken (ts.filter met) { k with mask := exec k.mask masks } k' := by
  have short : ts.length < fuel n := by
    have nodup : ts.Nodup := (List.nodup_cons.mp h.queue.nodup).2.of_map _
    exact Nat.lt_succ_of_le (length_le_of_nodup nodup)
  have sound : { k with mask := exec k.mask masks }.Sound ordered ([] ++ ts) := ⟨h.lists, h.queue, h.place⟩
  obtain ⟨k', loop, sound', woken⟩ := signalLoop_spec sound tests short
  have first : k.queue.next .bits = (ts.map Node.task).headD .bits := h.queue.next_head
  refine ⟨k', ?_, sound', woken⟩
  simp only [rtBitsSignal, if_pos magic, op, Option.bind_eq_bind, Option.bind_some, first, loop]
  rfl

/-! ## The lists after a signal -/

/-- The waiter leaves its test, and is the last of the queue. -/
theorem Sound.block {testfun testmasks : Word} (h : k.Sound ordered ts)
    (running : k.disp.state k.disp.current = READY) (real : k.disp.current ≠ rtLinuxTask)
    (place : Placeable k.disp k.disp.current) (fresh : k.disp.current ∉ ts) :
    (k.block testfun testmasks).Sound ordered (ts ++ [k.disp.current]) := by
  have leaves : READY.set SEMAPHORE ≠ READY := by decide
  obtain ⟨lists, L, same⟩ := h.lists.blockCurrent running real leaves
  refine ⟨lists.settle ?_, ?_, ?_⟩
  · rw [same]
    simp [READY, SEMAPHORE, TaskState.set]
  · have ring : Ring k.queue .bits (ts.map .task ++ []) := by
      rw [List.append_nil]
      exact h.queue
    rw [List.map_append]
    refine ring.insertBefore ?_ rfl
    simpa using fresh
  · intro t ht
    show Placeable (k.disp.blockCurrent SEMAPHORE) t
    rw [same]
    rcases List.mem_append.mp ht with ht | ht
    · exact h.place t ht
    · rw [List.mem_singleton.mp ht]
      exact place

/-- A signal leaves those waiters whose test of one mask is false of the new mask, in their
order, and of the others wakes those that wait for nothing else. -/
theorem signal_settles {n : Nat} {ordered : Prop} {ts : List (Up.Task n)} (k : Kernel n)
    (sound : k.Sound ordered ts) (magic : k.magic = true) (fn : Up.Task n → TestFun)
    (tests : ∀ t ∈ ts, TEST_FUN (k.retval t) = (fn t).index) (setfun : Nat)
    (exec : Word → Param → Word) (op : execFuns[setfun]? = some exec) (masks : Param)
    (behind : Up.Task n → Word) :
    let mask := exec k.mask masks
    let met := fun t => testFun (fn t) mask (TEST_MASK (k.retval t))
    ∃ k', k.rtBitsSignal setfun masks behind = some (k', mask) ∧ k'.mask = mask ∧
      Ring k'.queue .bits ((ts.filter fun t => !met t).map .task) ∧
      TimedIs ordered k'.disp.timed k'.disp.resumeTime
        (fun t => (k.disp.state t).delayed ∧ ¬(t ∈ ts ∧ met t)) ∧
      ReadyIs k'.disp.ready
        (fun t => k.disp.state t = READY ∨ t ∈ ts ∧ met t ∧ released (k.disp.state t) = READY) ∧
      ∀ t, (k'.blockedOn t = if t ∈ ts ∧ met t then false else k.blockedOn t) ∧
        k'.disp.state t =
          if t ∈ ts ∧ met t then released (k.disp.state t) else k.disp.state t := by
  intro mask met
  have called : ∀ t ∈ ts, { k with mask := mask }.callTest (behind t) t = some (met t) := by
    intro t ht
    simp only [callTest, tests t ht, TestFun.testFuns_index]
    rfl
  obtain ⟨k', signal, sound', woken⟩ := rtBitsSignal_spec sound magic op called
  have mem : ∀ t, t ∈ ts.filter met ↔ t ∈ ts ∧ met t := fun t => List.mem_filter
  have state : ∀ t, k'.disp.state t =
      if t ∈ ts ∧ met t then released (k.disp.state t) else k.disp.state t := by
    intro t
    rw [woken.state t]
    simp only [mem t]
  refine ⟨k', signal, woken.mask, sound'.queue, ?_, ?_, fun t => ⟨?_, state t⟩⟩
  · refine sound'.lists.timed.congr (fun t => ?_) fun _ _ => rfl
    rw [state t]
    split
    next out => simp [out, released, TaskState.clear, SEMAPHORE, DELAYED, TaskState.set]
    next stays => simp [stays]
  · refine sound'.lists.ready.congr fun t => ?_
    rw [state t]
    split
    next out =>
      constructor
      · exact fun ready => .inr ⟨out.1, out.2, ready⟩
      · rintro (ready | ⟨-, -, ready⟩)
        · rw [ready]
          rfl
        · exact ready
    next stays =>
      constructor
      · exact .inl
      · rintro (ready | ⟨m, meets, -⟩)
        · exact ready
        · exact absurd ⟨m, meets⟩ stays
  · rw [woken.blockedOn t]
    simp only [mem t]

/-- Three tasks wait: the second with a time, the third suspended. -/
def threeWait : Kernel 3 where
  disp := {
    magic := fun t => t ≠ rtLinuxTask
    state := ![READY, READY.set SEMAPHORE, (READY.set SEMAPHORE).set DELAYED,
      (READY.set SEMAPHORE).set SUSPENDED]
    priority := ![RT_LINUX_PRIORITY, 5, 4, 3]
    policy := fun _ => 0
    period := fun _ => 0
    resumeTime := ![RT_TIME_END, 0, 100, 0]
    yieldTime := fun _ => 0
    rrQuantum := fun _ => 0
    rrRemaining := fun _ => 0
    ready := ⟨id, id⟩
    timed := ⟨![2, 1, 0, 3], ![2, 1, 0, 3]⟩
    current := rtLinuxTask
    timeH := 0
    schedRqsted := 0
    timer := {} }
  magic := true
  mask := 0
  queue :=
    { next := fun | .bits => .task 1 | .task t => if t = 3 then .bits else .task (t + 1)
      prev := fun | .bits => .task 3 | .task t => if t = 1 then .bits else .task (t - 1) }
  blockedOn := fun t => t ≠ rtLinuxTask
  prioPassedTo := fun _ => none
  retval := ![0, leaveTest 1 1 0, leaveTest 0 3 0, leaveTest 2 4 0]

theorem threeWait_sound : threeWait.Sound True [1, 2, 3] where
  lists := {
    ready := ⟨[], ⟨by decide, rfl, rfl⟩, by decide⟩
    timed := ⟨[2], ⟨by decide, rfl, rfl, rfl, rfl⟩, by decide, fun _ => List.pairwise_singleton _ _⟩
    dead := by decide
    linuxMagic := rfl
    linuxTime := rfl
    linuxPolicy := le_refl 0 }
  queue := ⟨by decide, rfl, rfl, rfl, rfl, rfl, rfl, rfl, rfl⟩
  place := by
    intro t ht
    refine .inr ?_
    revert t
    decide

/-- The three are asked for any bit of 1, all of 3 and none of 4, and the bits of 3 are set. -/
theorem threeWait_signalled :
    ∃ k', threeWait.rtBitsSignal 0 ⟨3, 0⟩ (fun _ => 0) = some (k', 3) ∧ k'.queue.next .bits = .bits := by
  obtain ⟨k', signal, -, ring, -⟩ := signal_settles threeWait threeWait_sound rfl
    ![.ALL_SET, .ANY_SET, .ALL_SET, .ALL_CLR] (by decide) 0 (singleOp setBits) rfl ⟨3, 0⟩ fun _ => 0
  exact ⟨k', signal, ring.next_head⟩

end Kernel

end Rtai.Bits
