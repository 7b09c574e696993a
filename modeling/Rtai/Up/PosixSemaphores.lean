import Rtai.Up.CountingSemaphores

/-!
# POSIX-like semaphores

The `rt_psem` calls of `rtai_sched.h`, on the semaphore services of the scheduler.  A call
returns what it makes of the value of its service.  `rt_psem_getvalue` is two services: it takes
the semaphore, and gives it back, and other tasks run in between.

`rt_psem_post` calls `rt_sem_wait`.  It takes from the semaphore, and blocks when there is
nothing to take.
-/

namespace Rtai.Up.Psem

open Function Rtai.Lib

variable {n : Nat}

def EAGAIN : Int := 11
def EINVAL : Int := 22
def ERANGE : Int := 34

def rtPsemInit (value : Nat) : Int := if value < SEM_TIMOUT then 0 else -EINVAL

/-- `rt_psem_wait`, from what `rt_sem_wait` returns. -/
def rtPsemWait (ret : Int) : Int := if ret < SEM_TIMOUT then 0 else -1

def rtPsemTimedwait (ret : Int) : Int := if ret < SEM_TIMOUT then 0 else -1

def rtPsemTrywait (ret : Int) : Int := if ret > 0 then 0 else -EAGAIN

def rtPsemPost (ret : Int) : Int := if ret < SEM_TIMOUT then 0 else -ERANGE

/-- The calls that take or give. -/
inductive Call where
  | wait
  | timedwait (time : RTIME)
  | trywait
  | post
  | getvalue
deriving DecidableEq

namespace Call

/-- The service that the call begins with. -/
def op (S : SemId) : Call → Op n
  | .wait | .post => .semWait S
  | .timedwait time => .semWaitUntil S time
  | .trywait | .getvalue => .semWaitIf S

/-- The frame of a call that gives up the CPU. -/
def frame (S : SemId) : Call → Frame n
  | .timedwait _ => .rtSemWaitUntil S
  | _ => .rtSemWait S

def result (ret : Int) : Call → Int
  | .wait => rtPsemWait ret
  | .timedwait _ => rtPsemTimedwait ret
  | .trywait => rtPsemTrywait ret
  | .post => rtPsemPost ret
  | .getvalue => 0

def waits : Call → Bool
  | .wait | .timedwait _ | .trywait => true
  | .post | .getvalue => false

/-- The call is a wait, and returns 0. -/
def got (ret : Int) (call : Call) : Nat :=
  if call.waits = true ∧ call.result ret = 0 then 1 else 0

end Call

/-- Where a task is. -/
inductive Phase where
  | idle
  | inside (call : Call) (S : SemId)
  /-- Between the two services of `rt_psem_getvalue`. -/
  | between (S : SemId)
deriving DecidableEq

namespace Phase

def sem : Phase → Option SemId
  | .idle => none
  | .inside _ S | .between S => some S

/-- Where a task is when the service has returned. -/
def after (call : Call) (S : SemId) (ret : Int) : Phase :=
  if call = .getvalue ∧ ret > 0 then .between S else .idle

end Phase

structure State (n : Nat) where
  sys : System n
  phase : Task n → Phase
  /-- What `rt_psem_init` was called with. -/
  value : SemId → Option Nat
  /-- The waits that have returned 0. -/
  waits : SemId → Nat
  /-- The posts. -/
  posts : SemId → Nat

inductive Event (n : Nat) where
  | start (op : Op n) (c : Clock)
  | init (S : SemId) (pshared value : Nat) (c : Clock)
  | call (call : Call) (S : SemId) (c : Clock)
  /-- `rt_psem_getvalue` goes on. -/
  | giveBack (c : Clock)
  | resume (c : Clock)
  | timer (c : Clock)

namespace State

/-- The value of the semaphore, with what is to be given back. -/
def valueOf (S : SemId) (s : State n) : Int :=
  (s.sys.sem S).count + tally s.phase (.between S)

/-- The task waits for the semaphore. -/
def Blocked (S : SemId) (t : Task n) (s : State n) : Prop :=
  (∃ call : Call, call.waits = true ∧ s.phase t = .inside call S) ∧
    s.sys.blockedOn t = some (.sem S)

/-- A service returns to the call of `t`. -/
def returns (t : Task n) (call : Call) (S : SemId) (ret : Int) (s : State n) : State n :=
  { s with
    phase := update s.phase t (.after call S ret)
    waits := update s.waits S (s.waits S + call.got ret) }

/-- The call of `t` goes on, unless its service gave up the CPU. -/
def goOn (t : Task n) (call : Call) (S : SemId) (s : State n) : State n :=
  match s.sys.stack t, s.sys.retval t with
  | [], .int ret => s.returns t call S ret
  | _, _ => { s with phase := update s.phase t (.inside call S) }

end State

/-- Calls are for semaphores that `rt_psem_init` has set up. -/
def step : Event n → State n → Option (State n)
  | .start op c, s =>
      if s.phase s.sys.current = .idle ∧ s.sys.starts op = true then
        (System.step (.call op c) s.sys).map fun k => { s with sys := k }
      else none
  | .init S pshared value c, s =>
      if s.phase s.sys.current = .idle then
        if rtPsemInit value = 0 then
          (System.step (.call (.typedSemInit S value (pshared ||| PRIO_Q)) c) s.sys).map fun k =>
            { s with sys := k, value := update s.value S (some value) }
        else some s
      else none
  | .call call S c, s =>
      if s.phase s.sys.current = .idle ∧ (s.value S).isSome = true then
        (System.step (.call (call.op S) c) s.sys).map fun k =>
          { s with
            sys := k
            posts := if call = Call.post then update s.posts S (s.posts S + 1) else s.posts }.goOn
              s.sys.current call S
      else none
  | .giveBack c, s =>
      match s.phase s.sys.current with
      | .between S =>
          (System.step (.call (.semSignal S) c) s.sys).map fun k =>
            { s with sys := k, phase := update s.phase s.sys.current .idle }
      | _ => none
  | .resume c, s =>
      match s.phase s.sys.current with
      | .inside call S =>
          (System.step (.resume c) s.sys).map fun k => { s with sys := k }.goOn s.sys.current call S
      | _ => none
  | .timer c, s => (System.step (.timer c) s.sys).map fun k => { s with sys := k }

/-- The state after `init_module`, with no semaphore. -/
def boot (n : Nat) (timer : Timer) : State n where
  sys := Up.boot n timer
  phase := fun _ => .idle
  value := fun _ => none
  waits := fun _ => 0
  posts := fun _ => 0

/-- The event is a step of `rt_psem_getvalue`. -/
def Event.reads : Event n → Bool
  | .call .getvalue _ _ | .giveBack _ => true
  | _ => false

/-- The event is a post of the semaphore. -/
def Event.posts (S : SemId) : Event n → Bool
  | .call .post S' _ => S' = S
  | _ => false

/-- What is said of the semaphores. -/
structure Accounted (tr : List (Record (State n) (Event n))) (s : State n) : Prop where
  waits : ∀ S v, s.value S = some v → s.waits S ≤ v + s.posts S
  /-- A post returns, and lets one waiter through if there is one. -/
  post : ∀ r ∈ tr, ∀ S, r.event.posts S = true →
    r.post.phase r.pre.sys.current = .idle ∧
      ((∃ t, r.pre.Blocked S t) → ∃ t, r.pre.Blocked S t ∧ r.post.sys.blockedOn t = none)
  getvalue : ∀ r ∈ tr, r.event.reads = true → ∀ S v, r.pre.value S = some v →
    r.post.valueOf S = r.pre.valueOf S

/-- The semaphore is not a resource, and a post finds something to take. -/
def Proper (s : State n) : Event n → Prop
  | .init _ pshared _ _ => pshared &&& 3 ≠ RES_SEM
  | .call .post S _ => (s.sys.sem S).count > 0
  | _ => True

instance (s : State n) : (e : Event n) → Decidable (Proper s e)
  | .init _ _ _ _ => inferInstanceAs (Decidable (_ ≠ _))
  | .call .post _ _ => inferInstanceAs (Decidable (_ > _))
  | .start _ _ | .giveBack _ | .resume _ | .timer _ | .call .wait _ _ | .call (.timedwait _) _ _
  | .call .trywait _ _ | .call .getvalue _ _ => inferInstanceAs (Decidable True)

/-! ## The account -/

open CountingSemaphores

/-- The frames of a task. -/
def Phase.stack : Phase → List (Frame n)
  | .idle | .between _ => []
  | .inside call S => [call.frame S]

/-- The tasks that have taken from the semaphore or wait for it, and have not returned. -/
def held (s : State n) (S : SemId) : Nat := tally (Phase.sem ∘ s.phase) (some S)

/-- A semaphore that was set up with `v`. -/
structure Sound (s : State n) (S : SemId) (v : Nat) : Prop where
  magic : (s.sys.sem S).magic = true
  small : (v : Int) < SEM_TIMOUT
  limit : (s.sys.sem S).count + held s S + s.waits S ≤ v
  binary : (s.sys.sem S).type ≠ 0 → (s.sys.sem S).count + held s S ≤ 1
  waiting : (waiters s.sys S).card = (-(s.sys.sem S).count).toNat

structure Ok (s : State n) : Prop where
  counting : s.sys.Counting
  fits : ∀ t, s.sys.swept.stack t = (s.phase t).stack
  used : ∀ t S, (s.phase t).sem = some S → (s.value S).isSome = true
  unused : ∀ S, s.value S = none → s.waits S = 0
  sound : ∀ S v, s.value S = some v → Sound s S v

/-- The current task goes on in its call for `S`, which is left with `count`. -/
structure Turn (s : State n) (S : SemId) (p : Phase) (count : Int) (got : Nat) (s' : State n) :
    Prop where
  counting : s'.sys.Counting
  swept : s'.sys.swept.stack = update s.sys.swept.stack s.sys.current p.stack
  phase : s'.phase = update s.phase s.sys.current p
  value : s'.value = s.value
  waits : s'.waits = update s.waits S (s.waits S + got)
  sem : s'.sys.sem = update s.sys.sem S { s.sys.sem S with count := count }
  setUp : (s.value S).isSome = true
  old : ∀ S', (s.phase s.sys.current).sem = some S' → S' = S
  new : ∀ S', p.sem = some S' → S' = S
  limit : count + (if p.sem = some S then 1 else 0 : Nat) + got ≤
    (s.sys.sem S).count + (if (s.phase s.sys.current).sem = some S then 1 else 0 : Nat)
  waiting : (waiters s'.sys S).card = (-count).toNat
  others : ∀ S', S' ≠ S → waiters s'.sys S' = waiters s.sys S'

section

variable {s s' : State n} {S S' : SemId} {p : Phase} {count : Int} {got v pshared value : Nat}
  {t : Task n} {call : Call} {c : Clock} {k : System n} {ret : Int} {P : SemId → Nat} {e : Event n}
  {V : SemId → Option Nat} {time : RTIME}

theorem Turn.held (turn : Turn s S p count got s') :
    Psem.held s' S' + (if (s.phase s.sys.current).sem = some S' then 1 else 0) =
      Psem.held s S' + if p.sem = some S' then 1 else 0 := by
  rw [Psem.held, turn.phase, comp_update]
  exact tally_update _

theorem Turn.ok (turn : Turn s S p count got s') (ok : Ok s) : Ok s' := by
  refine ⟨turn.counting, fun u => ?_, fun u S' sem => ?_, fun S' none => ?_, fun S' v set => ?_⟩
  · rw [turn.swept, turn.phase]
    rcases eq_or_ne u s.sys.current with rfl | other
    · rw [update_self, update_self]
    · rw [update_of_ne other, update_of_ne other, ok.fits]
  · rw [turn.value]
    rw [turn.phase] at sem
    rcases eq_or_ne u s.sys.current with rfl | other
    · rw [update_self] at sem
      rw [turn.new S' sem]
      exact turn.setUp
    · rw [update_of_ne other] at sem
      exact ok.used u S' sem
  · rw [turn.value] at none
    have other : S' ≠ S := by
      rintro rfl
      have setUp := turn.setUp
      rw [none] at setUp
      cases setUp
    rw [turn.waits, update_of_ne other]
    exact ok.unused S' none
  · rw [turn.value] at set
    have before := ok.sound S' v set
    have held : Psem.held s' S' + _ = Psem.held s S' + _ := turn.held
    rcases eq_or_ne S' S with rfl | other
    · have limit := turn.limit
      have sem : s'.sys.sem S' = { s.sys.sem S' with count := count } := by
        rw [turn.sem, update_self]
      refine ⟨?_, before.small, ?_, fun type => ?_, ?_⟩
      · rw [sem]
        exact before.magic
      · have limited := before.limit
        rw [sem, turn.waits, update_self]
        push_cast
        omega
      · rw [sem] at type ⊢
        have binary := before.binary type
        dsimp only
        omega
      · rw [sem]
        exact turn.waiting
    · have old : (s.phase s.sys.current).sem ≠ some S' := fun sem => other (turn.old S' sem)
      have new : p.sem ≠ some S' := fun sem => other (turn.new S' sem)
      have sem : s'.sys.sem S' = s.sys.sem S' := by
        rw [turn.sem, update_of_ne other]
      have waits : s'.waits S' = s.waits S' := by
        rw [turn.waits, update_of_ne other]
      rw [if_neg old, if_neg new] at held
      rw [Nat.add_zero, Nat.add_zero] at held
      refine ⟨?_, before.small, ?_, fun type => ?_, ?_⟩
      · rw [sem]
        exact before.magic
      · rw [sem, held, waits]
        exact before.limit
      · rw [sem] at type ⊢
        rw [held]
        exact before.binary type
      · rw [sem, turn.others S' other]
        exact before.waiting

/-! ## Steps -/

theorem after_stack : (Phase.after call S ret).stack = ([] : List (Frame n)) := by
  rw [Phase.after]
  split <;> rfl

theorem after_sem (sem : (Phase.after call S ret).sem = some S') : S' = S := by
  rw [Phase.after] at sem
  split at sem
  · exact (Option.some.inj sem).symm
  · cases sem

theorem after_idle (other : call ≠ .getvalue) : Phase.after call S ret = .idle :=
  if_neg fun h => other h.1

/-- Only a wait is counted, and only `rt_psem_getvalue` goes on with what it took. -/
theorem after_got (call : Call) (S : SemId) (ret : Int) :
    (if (Phase.after call S ret).sem = some S then 1 else 0) + call.got ret ≤ 1 := by
  by_cases reads : call = .getvalue
  · subst reads
    show (if _ then 1 else 0) + 0 ≤ 1
    split <;> omega
  · rw [after_idle reads]
    show 0 + (if _ then 1 else 0) ≤ 1
    split <;> omega

/-- A wait that is late, and one that is refused, are not counted. -/
theorem late_got : (Call.timedwait time).got SEM_TIMOUT = 0 := by
  refine if_neg fun h => ?_
  exact absurd h.2 (by decide : rtPsemTimedwait SEM_TIMOUT ≠ 0)

theorem late_after : Phase.after (.timedwait time) S SEM_TIMOUT = .idle :=
  after_idle nofun

theorem refused_got (call : Call) (tries : call = .trywait ∨ call = .getvalue) (none : ret ≤ 0) :
    call.got ret = 0 ∧ Phase.after call S ret = .idle := by
  have out : ¬ret > 0 := Int.not_lt.mpr none
  rcases tries with rfl | rfl
  · refine ⟨?_, rfl⟩
    rw [Call.got, Call.result, rtPsemTrywait, if_neg out]
    rfl
  · exact ⟨rfl, if_neg fun h => out h.2⟩

theorem waiters_same {a b : System n} (waits : b.swept.waitsOn = a.swept.waitsOn) (S : SemId) :
    waiters b S = waiters a S := by
  rw [waiters, waits, waiters]

/-- The service has returned. -/
theorem Turn.of_returns (counting : k.Counting) (stack : k.stack s.sys.current = [])
    (retval : k.retval s.sys.current = .int ret)
    (swept : k.swept.stack = update s.sys.swept.stack s.sys.current [])
    (sem : k.sem = update s.sys.sem S { s.sys.sem S with count := count })
    (setUp : (s.value S).isSome = true) (old : ∀ S', (s.phase s.sys.current).sem = some S' → S' = S)
    (limit : count + (if (Phase.after call S ret).sem = some S then 1 else 0 : Nat) + call.got ret ≤
      (s.sys.sem S).count + (if (s.phase s.sys.current).sem = some S then 1 else 0 : Nat))
    (waiting : (waiters k S).card = (-count).toNat)
    (others : ∀ S', S' ≠ S → waiters k S' = waiters s.sys S') :
    Turn s S (.after call S ret) count (call.got ret)
      ({ s with sys := k, posts := P }.goOn s.sys.current call S) := by
  have goes : State.goOn s.sys.current call S { s with sys := k, posts := P } =
      State.returns s.sys.current call S ret { s with sys := k, posts := P } := by
    rw [State.goOn]
    dsimp only
    rw [stack, retval]
  rw [goes]
  refine ⟨counting, ?_, rfl, rfl, rfl, sem, setUp, old, fun _ => after_sem, limit, waiting, others⟩
  rw [after_stack]
  exact swept

/-- A call begins.  A post that finds something returns, and what `rt_psem_getvalue` takes it
will give back. -/
def Begins (s : State n) (call : Call) (S : SemId) (s' : State n) : Prop :=
  ∃ p count got, Turn s S p count got s' ∧
    ((s.sys.sem S).count > 0 → call = .post → p = .idle) ∧
    (call = .getvalue → count + (if p = .between S then 1 else 0 : Nat) = (s.sys.sem S).count)

/-- A task outside the scheduler has no frame. -/
theorem Ok.swept_stack (ok : Ok s)
    (outside : ((s.phase s.sys.current).stack : List (Frame n)) = []) :
    update s.sys.swept.stack s.sys.current [] = s.sys.swept.stack := by
  rw [← outside, ← ok.fits]
  exact update_eq_self _ _

/-- A wait finds something, blocks or is late. -/
theorem Begins.of_waited (ok : Ok s) (idle : s.phase s.sys.current = .idle)
    (set : s.value S = some v) (counting : k.Counting) (other : call ≠ .getvalue)
    (timed : call.frame S = (.rtSemWaitUntil S : Frame n) → ∃ time, call = .timedwait time)
    (idle' : s.sys.stack s.sys.current = []) (waited : Waited s.sys S (call.frame S) k) :
    Begins s call S ({ s with sys := k, posts := P }.goOn s.sys.current call S) := by
  have sound := ok.sound S v set
  have setUp : (s.value S).isSome = true := by rw [set]; rfl
  have waiting := sound.waiting
  have fits := ok.swept_stack (by rw [idle]; rfl)
  have old : ∀ S', (s.phase s.sys.current).sem = some S' → S' = S := by
    rw [idle]
    nofun
  have out : (if (s.phase s.sys.current).sem = some S then 1 else 0 : Nat) = 0 := by
    rw [idle]
    rfl
  cases waited with
  | refused dead => exact absurd (dead.symm.trans sound.magic) Bool.false_ne_true
  | took magic free sems waits swept stack retval =>
      refine ⟨_, _, _, .of_returns counting (by rw [stack, idle']) retval (swept.trans fits.symm) sems
        setUp old ?_ ?_ fun S' _ => waiters_same waits S', fun _ _ => after_idle other,
        fun reads => absurd reads other⟩
      · have one := after_got call S (s.sys.sem S).count
        rw [out]
        omega
      · rw [waiters_same waits, waiting]
        omega
  | blocked taken sems nowhere waits swept stack =>
      have goes : State.goOn s.sys.current call S { s with sys := k, posts := P } =
          { s with sys := k, posts := P, phase := update s.phase s.sys.current (.inside call S) } := by
        rw [State.goOn]
        dsimp only
        rw [stack]
      rw [goes]
      have more : ∀ S', waiters k S' = _ := fun S' => waiters_insert nowhere waits
      refine ⟨.inside call S, _, 0, ⟨counting, swept, rfl, rfl, ?_, sems, setUp, old,
        fun S' sem => (Option.some.inj sem).symm, ?_, ?_, fun S' other => ?_⟩,
        fun free => absurd free (Int.not_lt.mpr taken), fun reads => absurd reads other⟩
      · exact (update_eq_self _ _).symm
      · have inside : (if (Phase.inside call S).sem = some S then 1 else 0 : Nat) = 1 := if_pos rfl
        rw [out, inside]
        omega
      · rw [more, if_pos rfl, Finset.card_insert_of_notMem, waiting]
        · omega
        · rw [mem_waiters, nowhere]
          nofun
      · rw [more, if_neg (Ne.symm other)]
  | late isTimed taken sems waits swept stack retval =>
      obtain ⟨time, rfl⟩ := timed isTimed
      refine ⟨_, _, _, .of_returns counting (by rw [stack, idle']) retval (swept.trans fits.symm)
        (sems.trans (update_eq_self _ _).symm) setUp old ?_ ?_ fun S' _ => waiters_same waits S',
        fun free => absurd free (Int.not_lt.mpr taken), fun reads => absurd reads other⟩
      · rw [out, late_got, late_after]
        show (s.sys.sem S).count + 0 + 0 ≤ _
        omega
      · rw [waiters_same waits, waiting]

/-- `rt_sem_wait_if` takes the semaphore or refuses. -/
theorem Begins.of_tried (ok : Ok s) (idle : s.phase s.sys.current = .idle)
    (set : s.value S = some v) (tries : call = .trywait ∨ call = .getvalue)
    (idle' : s.sys.stack s.sys.current = []) (counting : (s.sys.rtSemWaitIf S).Counting) :
    Begins s call S
      ({ s with sys := s.sys.rtSemWaitIf S, posts := P }.goOn s.sys.current call S) := by
  have gives : call ≠ .post := by rcases tries with rfl | rfl <;> nofun
  have sound := ok.sound S v set
  have setUp : (s.value S).isSome = true := by rw [set]; rfl
  have waiting := sound.waiting
  have fits := (ok.swept_stack (by rw [idle]; rfl)).symm
  have old : ∀ S', (s.phase s.sys.current).sem = some S' → S' = S := by
    rw [idle]
    nofun
  have out : (if (s.phase s.sys.current).sem = some S then 1 else 0 : Nat) = 0 := by
    rw [idle]
    rfl
  have plain := System.rtSemWaitIf_plain (s := s.sys) (ok.counting.kinds S)
  by_cases free : 0 < (s.sys.sem S).count
  · rw [if_pos ⟨sound.magic, free⟩] at plain
    rw [plain] at counting ⊢
    refine ⟨_, _, _, .of_returns counting idle' (update_self _ _ _) fits rfl setUp old ?_ ?_
      fun _ _ => rfl, fun _ post => absurd post gives, fun reads => ?_⟩
    · have one := after_got call S (s.sys.sem S).count
      rw [out]
      omega
    · exact waiting.trans (by omega)
    · have between : Phase.after call S (s.sys.sem S).count = .between S := if_pos ⟨reads, free⟩
      rw [between, if_pos rfl]
      omega
  · rw [if_neg fun h => free h.2, if_pos sound.magic] at plain
    rw [plain] at counting ⊢
    obtain ⟨none, after⟩ := refused_got (S := S) call tries (Int.not_lt.mp free)
    refine ⟨_, _, _, .of_returns counting idle' (update_self _ _ _) fits (update_eq_self _ _).symm
      setUp old ?_ waiting fun _ _ => rfl, fun _ post => absurd post gives, fun _ => ?_⟩
    · rw [out, none, after]
      show (s.sys.sem S).count + 0 + 0 ≤ _
      omega
    · rw [after, if_neg nofun]
      exact Int.add_zero _

/-- A call behind `rt_schedule`. -/
theorem Turn.of_resumed (ok : Ok s) (inside : s.phase s.sys.current = .inside call S)
    (counting : k.Counting)
    (timed : call.frame S = (.rtSemWaitUntil S : Frame n) → ∃ time, call = .timedwait time)
    (resumed : Resumed s.sys (call.frame S) k) :
    ∃ p count got, Turn s S p count got ({ s with sys := k }.goOn s.sys.current call S) := by
  have h := ok.counting
  have setUp := ok.used s.sys.current S (by rw [inside]; rfl)
  obtain ⟨v, set⟩ := Option.isSome_iff_exists.mp setUp
  have sound := ok.sound S v set
  have waiting := sound.waiting
  have old : ∀ S', (s.phase s.sys.current).sem = some S' → S' = S := by
    rw [inside]
    exact fun S' sem => (Option.some.inj sem).symm
  have one : (if (s.phase s.sys.current).sem = some S then 1 else 0 : Nat) = 1 := by
    rw [inside]
    exact if_pos rfl
  cases resumed with
  | granted clear sems waits swept stack value =>
      have aim : (call.frame S : Frame n).aim = .semaphore S := by cases call <;> rfl
      refine ⟨_, _, _, .of_returns counting stack (value S aim sound.magic) swept
        (sems.trans (update_eq_self _ _).symm) setUp old ?_ ?_ fun S' _ => waiters_same waits S'⟩
      · have one' := after_got call S (s.sys.sem S).count
        rw [one]
        show (s.sys.sem S).count + _ + _ ≤ _
        omega
      · rw [waiters_same waits, waiting]
  | @late S₁ count isTimed queued sems counted waits swept stack value =>
      obtain rfl : S₁ = S := by
        cases call <;> cases isTimed
        rfl
      obtain ⟨time, rfl⟩ := timed isTimed
      have here := (h.waitsOn h.live).trans queued
      have less : ∀ S', waiters k S' = _ := fun S' => waiters_erase here waits
      have some := Finset.card_pos.mpr ⟨_, mem_waiters.mpr here⟩
      have next : count = (s.sys.sem S₁).count + 1 := by
        rw [counted, if_neg]
        omega
      refine ⟨_, _, _, .of_returns counting stack value swept sems setUp old ?_ ?_
        fun S' other => ?_⟩
      · rw [one, late_got, late_after]
        show count + 0 + 0 ≤ _
        omega
      · rw [less, if_pos rfl, Finset.card_erase_of_mem (mem_waiters.mpr here)]
        omega
      · rw [less, if_neg (Ne.symm other)]

/-- `rt_psem_getvalue` gives the semaphore back. -/
theorem Turn.of_signalled (ok : Ok s) (between : s.phase s.sys.current = .between S)
    (counting : k.Counting) (signalled : Signalled s.sys S k) :
    Turn s S .idle ((s.sys.sem S).count + 1) 0
      { s with sys := k, posts := P, phase := update s.phase s.sys.current .idle } := by
  have setUp := ok.used s.sys.current S (by rw [between]; rfl)
  obtain ⟨v, set⟩ := Option.isSome_iff_exists.mp setUp
  have sound := ok.sound S v set
  have waiting := sound.waiting
  have fits := ok.swept_stack (by rw [between]; rfl)
  have old : ∀ S', (s.phase s.sys.current).sem = some S' → S' = S := by
    rw [between]
    exact fun S' sem => (Option.some.inj sem).symm
  have one : (if (s.phase s.sys.current).sem = some S then 1 else 0 : Nat) = 1 := by
    rw [between]
    exact if_pos rfl
  have holds : 0 < Psem.held s S := by
    refine tally_pos (p := s.sys.current) ?_
    rw [comp_apply, between]
    rfl
  have next : System.signalledCount (s.sys.sem S) = (s.sys.sem S).count + 1 := by
    have binary := sound.binary
    rw [System.signalledCount]
    split
    next => rfl
    next type =>
      have binary := binary type
      split <;> omega
  have limit : (s.sys.sem S).count + 1 + (0 : Nat) + (0 : Nat) ≤ (s.sys.sem S).count + (1 : Nat) := by
    omega
  have same : s.waits = update s.waits S (s.waits S + 0) := (update_eq_self _ _).symm
  rw [← one] at limit
  cases signalled with
  | refused dead => exact absurd (dead.symm.trans sound.magic) Bool.false_ne_true
  | nobody magic none idle sems waits swept =>
      rw [next] at sems
      refine ⟨counting, swept.trans fits.symm, rfl, rfl, same, sems, setUp, old, nofun, limit, ?_,
        fun S' _ => waiters_same waits S'⟩
      have empty : waiters s.sys S = ∅ :=
        Finset.eq_empty_iff_forall_notMem.mpr fun t ht => idle t (mem_waiters.mp ht)
      rw [waiters_same waits]
      rw [empty, Finset.card_empty] at waiting ⊢
      omega
  | first magic first queued sems waits swept =>
      rw [next] at sems
      have less : ∀ S', waiters k S' = _ := fun S' => waiters_erase queued waits
      have some := Finset.card_pos.mpr ⟨_, mem_waiters.mpr queued⟩
      refine ⟨counting, swept.trans fits.symm, rfl, rfl, same, sems, setUp, old, nofun, limit, ?_,
        fun S' other => ?_⟩
      · rw [less, if_pos rfl, Finset.card_erase_of_mem (mem_waiters.mpr queued)]
        omega
      · rw [less, if_neg (Ne.symm other)]

/-- A call begins. -/
theorem Begins.of_step (ok : Ok s) (idle : s.phase s.sys.current = .idle) (set : s.value S = some v)
    (goes : System.step (.call (call.op S) c) s.sys = some k) :
    Begins s call S ({ s with sys := k, posts := P }.goOn s.sys.current call S) := by
  obtain ⟨idle', -, called⟩ := System.step_call goes
  have h := ok.counting
  have guard : s.sys.ofCounting (.call (call.op S) c) = true := by cases call <;> rfl
  have counting := h.step guard goes
  have step := h.cases guard goes
  cases call with
  | wait => exact .of_waited ok idle set counting nofun nofun idle' (.of_step h step .semWait)
  | timedwait time =>
      exact .of_waited ok idle set counting nofun (fun _ => ⟨time, rfl⟩) idle'
        (.of_step h step .semWaitUntil)
  | trywait =>
      cases called
      exact .of_tried ok idle set (.inl rfl) idle' counting
  | post => exact .of_waited ok idle set counting nofun nofun idle' (.of_step h step .semWait)
  | getvalue =>
      cases called
      exact .of_tried ok idle set (.inr rfl) idle' counting

/-- The value is kept when what is taken is to be given back. -/
theorem Turn.valueOf (turn : Turn s S p count got s')
    (balance : count + (if p = .between S then 1 else 0 : Nat) =
      (s.sys.sem S).count + (if s.phase s.sys.current = .between S then 1 else 0 : Nat))
    (S' : SemId) : s'.valueOf S' = s.valueOf S' := by
  have places := tally_update s.phase (p := s.sys.current) (a := .between S') (b := p)
  rw [← turn.phase] at places
  rw [State.valueOf, State.valueOf, turn.sem]
  rcases eq_or_ne S' S with rfl | other
  · rw [update_self]
    dsimp only
    omega
  · have old : s.phase s.sys.current ≠ .between S' :=
      fun here => other (turn.old S' (by rw [here]; rfl))
    have new : p ≠ .between S' := fun here => other (turn.new S' (by rw [here]; rfl))
    rw [if_neg old, if_neg new] at places
    rw [update_of_ne other]
    omega

/-- Nobody waits for a semaphore that is free. -/
theorem Ok.not_blocked (ok : Ok s) (set : s.value S = some v) (free : (s.sys.sem S).count > 0) :
    ¬s.Blocked S t := by
  rintro ⟨⟨call, -, inside⟩, blocked⟩
  have live : s.sys.lives t = true := by
    by_contra dead
    have fits := ok.fits t
    rw [inside] at fits
    have none : s.sys.swept.stack t = [] := if_neg dead
    cases none.symm.trans fits
  have here := (ok.counting.waitsOn live).trans blocked
  have some := Finset.card_pos.mpr ⟨t, mem_waiters.mpr here⟩
  have waiting := (ok.sound S v set).waiting
  omega

/-- The calls that `step` takes. -/
theorem step_call (stepped : step (.call call S c) s = some s') :
    s.phase s.sys.current = .idle ∧ ∃ v k P, s.value S = some v ∧
      System.step (.call (call.op S) c) s.sys = some k ∧
      s' = { s with sys := k, posts := P }.goOn s.sys.current call S := by
  obtain ⟨⟨idle, setUp⟩, taken⟩ := Option.ite_none_right_eq_some.mp stepped
  obtain ⟨k, goes, rfl⟩ := Option.map_eq_some_iff.mp taken
  obtain ⟨v, set⟩ := Option.isSome_iff_exists.mp setUp
  exact ⟨idle, v, k, _, set, goes, rfl⟩

theorem step_giveBack (ok : Ok s) (stepped : step (.giveBack c) s = some s') :
    ∃ S, s.phase s.sys.current = .between S ∧ Turn s S .idle ((s.sys.sem S).count + 1) 0 s' := by
  simp only [step] at stepped
  split at stepped
  next S between =>
    obtain ⟨k, goes, rfl⟩ := Option.map_eq_some_iff.mp stepped
    have h := ok.counting
    have guard : s.sys.ofCounting (.call (.semSignal S) c) = true := rfl
    exact ⟨S, between,
      .of_signalled ok between (h.step guard goes) (.of_step h (h.cases guard goes))⟩
  next => cases stepped

/-- A post that finds something returns, and nobody waits for it. -/
theorem post_returns (ok : Ok s) (proper : Proper s e) (posts : e.posts S = true)
    (stepped : step e s = some s') : s'.phase s.sys.current = .idle ∧ ∀ t, ¬s.Blocked S t := by
  cases e with
  | call call S' c =>
      cases call with
      | post =>
          obtain rfl := of_decide_eq_true posts
          obtain ⟨idle, v, k, P, set, goes, rfl⟩ := step_call stepped
          obtain ⟨p, count, got, turn, returns, -⟩ := Begins.of_step (P := P) ok idle set goes
          refine ⟨?_, fun t => ok.not_blocked set proper⟩
          rw [turn.phase, update_self, returns proper rfl]
      | wait | timedwait | trywait | getvalue => cases posts
  | start | init | giveBack | resume | timer => cases posts

/-- `rt_psem_getvalue` keeps the values. -/
theorem reads_valueOf (ok : Ok s) (reads : e.reads = true) (stepped : step e s = some s')
    (S' : SemId) : s'.valueOf S' = s.valueOf S' := by
  cases e with
  | call call S c =>
      cases call with
      | getvalue =>
          obtain ⟨idle, v, k, P, set, goes, rfl⟩ := step_call stepped
          obtain ⟨p, count, got, turn, -, keeps⟩ := Begins.of_step (P := P) ok idle set goes
          refine turn.valueOf ?_ S'
          rw [keeps rfl, idle, if_neg nofun]
          exact (Int.add_zero _).symm
      | wait | timedwait | trywait | post => cases reads
  | giveBack c =>
      obtain ⟨S, between, turn⟩ := step_giveBack ok stepped
      refine turn.valueOf ?_ S'
      rw [between, if_pos rfl, if_neg nofun]
      omega
  | start | init | resume | timer => cases reads

/-- A semaphore that a step leaves alone. -/
theorem Sound.same (sound : Sound s S v) (sem : k.sem S = s.sys.sem S)
    (waits : k.swept.waitsOn = s.sys.swept.waitsOn) :
    Sound { s with sys := k, value := V } S v := by
  refine ⟨?_, sound.small, ?_, ?_, ?_⟩
  · rw [sem]
    exact sound.magic
  · rw [sem]
    exact sound.limit
  · rw [sem]
    exact sound.binary
  · rw [sem, waiters_same waits]
    exact sound.waiting

/-- Steps that touch no semaphore in use. -/
theorem Ok.rest (ok : Ok s) (counting : k.Counting)
    (sems : ∀ S, (s.sys.sem S).magic = true → k.sem S = s.sys.sem S)
    (waits : k.swept.waitsOn = s.sys.swept.waitsOn) (swept : k.swept.stack = s.sys.swept.stack) :
    Ok { s with sys := k } := by
  refine ⟨counting, fun t => (congrFun swept t).trans (ok.fits t), ok.used, ok.unused, ?_⟩
  intro S v set
  have sound := ok.sound S v set
  exact sound.same (sems S sound.magic) waits

/-- A semaphore that is set up. -/
theorem Sound.init (ok : Ok s) (new : s.value S = none) (unused : (s.sys.sem S).magic = false)
    (kind : pshared &&& 3 ≠ RES_SEM) (small : rtPsemInit value = 0) :
    Sound { s with sys := s.sys.rtTypedSemInit S value (pshared ||| PRIO_Q), value := V } S value := by
  have least : pshared &&& 3 ≤ 3 := Nat.and_le_right
  have sem : (s.sys.rtTypedSemInit S value (pshared ||| PRIO_Q)).sem S =
      System.typedSem value pshared := by
    rw [PRIO_Q, Nat.or_zero]
    exact update_self _ _ _
  have count : (System.typedSem value pshared : Sem n).count =
      if ((pshared &&& 3 : Nat) : Int) - 2 < 0 ∧ (value : Int) > 1 then 1 else value := by
    rw [System.typedSem]
    dsimp only
    rw [RES_SEM] at kind
    split
    next => rfl
    next => exact if_neg (by omega)
  have none : held s S = 0 := by
    refine tally_eq_zero fun t here => ?_
    have set := ok.used t S here
    rw [new] at set
    cases set
  have nobody : waiters (s.sys.rtTypedSemInit S value (pshared ||| PRIO_Q)) S = ∅ := by
    refine Finset.eq_empty_iff_forall_notMem.mpr fun t ht => ?_
    have live : (s.sys.sem S).magic = true := ok.counting.waits.inUse t _ (mem_waiters.mp ht)
    exact absurd (unused.symm.trans live) Bool.false_ne_true
  have waits := ok.unused S new
  refine ⟨?_, ?_, ?_, fun type => ?_, ?_⟩
  · rw [sem]
    rfl
  · by_contra big
    rw [rtPsemInit, if_neg big] at small
    cases small
  · show _ + (held s S : Int) + (s.waits S : Int) ≤ value
    rw [sem, count, none, waits]
    split <;> omega
  · show _ + (held s S : Int) ≤ 1
    have negative : ((pshared &&& 3 : Nat) : Int) - 2 < 0 := by
      rw [sem, System.typedSem] at type
      dsimp only at type
      rw [RES_SEM] at kind
      split at type <;> omega
    rw [sem, count, none]
    split <;> omega
  · rw [nobody, sem, count, Finset.card_empty]
    split <;> omega

/-- `rt_psem_init`. -/
theorem Ok.init (ok : Ok s) (kind : pshared &&& 3 ≠ RES_SEM) (small : rtPsemInit value = 0)
    (goes : System.step (.call (.typedSemInit S value (pshared ||| PRIO_Q)) c) s.sys = some k) :
    Ok { s with sys := k, value := update s.value S (some value) } := by
  have h := ok.counting
  have guard : s.sys.ofCounting (.call (.typedSemInit S value (pshared ||| PRIO_Q)) c) = true := by
    simp [System.ofCounting, PRIO_Q, kind]
  have counting := h.step guard goes
  cases h.cases guard goes with
  | wait idle waits => cases waits
  | start idle starts => cases starts
  | init idle unused =>
      have new : s.value S = none := by
        cases set : s.value S with
        | none => rfl
        | some v => exact absurd (unused.symm.trans (ok.sound S v set).magic) Bool.false_ne_true
      refine ⟨counting, ok.fits, fun t S' sem => ?_, fun S' none => ?_, fun S' v set => ?_⟩
      · show (update s.value S (some value) S').isSome = true
        rcases eq_or_ne S' S with rfl | other
        · rw [update_self]
          rfl
        · rw [update_of_ne other]
          exact ok.used t S' sem
      · rcases eq_or_ne S' S with rfl | other
        · cases (update_self _ _ _).symm.trans none
        · exact ok.unused S' ((update_of_ne other _ _).symm.trans none)
      · rcases eq_or_ne S' S with rfl | other
        · cases (update_self _ _ _).symm.trans set
          exact .init ok new unused kind small
        · have sound := ok.sound S' v ((update_of_ne other _ _).symm.trans set)
          have same : (s.sys.rtTypedSemInit S value (pshared ||| PRIO_Q)).sem S' = s.sys.sem S' :=
            update_of_ne other _ _
          exact sound.same same rfl

theorem Ok.step (ok : Ok s) (proper : Proper s e) (stepped : step e s = some s') : Ok s' := by
  have h := ok.counting
  cases e with
  | start op c =>
      obtain ⟨⟨-, starts⟩, taken⟩ := Option.ite_none_right_eq_some.mp stepped
      obtain ⟨k, goes, rfl⟩ := Option.map_eq_some_iff.mp taken
      have guard : s.sys.ofCounting (.call op c) = true := by
        cases op <;> first | exact starts | cases starts
      have counting := h.step guard goes
      cases h.cases guard goes with
      | start idle starts moves hs =>
          obtain ⟨sems, waits, swept⟩ := start_keeps h starts moves
          obtain ⟨sems', waits', swept', -⟩ := Effect.scheduled hs
          exact ok.rest counting (fun S _ => congrFun (sems'.trans sems) S) (waits'.trans waits)
            (swept'.trans swept)
      | wait idle waits => cases waits <;> cases starts
      | waitIf | signal | init | delete => cases starts
  | init S pshared value c =>
      obtain ⟨-, taken⟩ := Option.ite_none_right_eq_some.mp stepped
      split at taken
      next small =>
        obtain ⟨k, goes, rfl⟩ := Option.map_eq_some_iff.mp taken
        exact ok.init proper small goes
      next =>
        cases taken
        exact ok
  | call call S c =>
      obtain ⟨idle, v, k, P, set, goes, rfl⟩ := step_call stepped
      obtain ⟨p, count, got, turn, -⟩ := Begins.of_step (P := P) ok idle set goes
      exact turn.ok ok
  | giveBack c =>
      obtain ⟨S, -, turn⟩ := step_giveBack ok stepped
      exact turn.ok ok
  | resume c =>
      simp only [Psem.step] at stepped
      split at stepped
      next call S inside =>
        obtain ⟨k, goes, rfl⟩ := Option.map_eq_some_iff.mp stepped
        have guard : s.sys.ofCounting (.resume c) = true := rfl
        obtain ⟨f, stack, resumed⟩ := Resumed.of_step h (h.cases guard goes)
        have frame : f = call.frame S := by
          have fits := ok.fits s.sys.current
          rw [inside, System.swept_stack h.live, stack] at fits
          exact (List.cons.inj fits).1
        have timed : call.frame S = (.rtSemWaitUntil S : Frame n) → ∃ time, call = .timedwait time := by
          intro timed
          cases call with
          | timedwait time => exact ⟨time, rfl⟩
          | _ => cases timed
        rw [frame] at resumed
        obtain ⟨p, count, got, turn⟩ := Turn.of_resumed ok inside (h.step guard goes) timed resumed
        exact turn.ok ok
      next => cases stepped
  | timer c =>
      obtain ⟨k, goes, rfl⟩ := Option.map_eq_some_iff.mp stepped
      have guard : s.sys.ofCounting (.timer c) = true := rfl
      have counting := h.step guard goes
      cases h.cases guard goes with
      | timer idle woken =>
          have swept := System.swept_woken woken
          refine ok.rest counting (fun _ _ => rfl) ?_ ?_
          · rw [swept]
            rfl
          · rw [swept]

theorem Ok.accounted (ok : Ok s) (set : s.value S = some v) : s.waits S ≤ v := by
  have sound := ok.sound S v set
  have limit := sound.limit
  have waiting := sound.waiting
  have inside : (waiters s.sys S).card ≤ held s S := by
    refine card_le_tally fun t ht => ?_
    obtain ⟨f, S', same, stack, aim, -⟩ := ok.counting.waiter (mem_waiters.mp ht)
    cases same
    have fits := ok.fits t
    rw [stack] at fits
    rw [comp_apply]
    cases phase : s.phase t with
    | idle | between => rw [phase] at fits; cases fits
    | inside call S' =>
        rw [phase] at fits
        have frame : f = call.frame S' := (List.cons.inj fits).1
        rw [frame] at aim
        cases call <;> cases aim <;> rfl
  omega

theorem boot_ok (n : Nat) (timer : Timer) : Ok (boot n timer) := by
  have kept := boot_kept n timer
  refine ⟨kept.counting, fun t => ?_, fun t S sem => ?_, fun _ _ => rfl, fun S v set => ?_⟩
  · exact ite_self _
  · cases sem
  · cases set

/-- What holds of a run. -/
structure Kept (tr : List (Record (State n) (Event n))) (s : State n) : Prop where
  ok : Ok s
  post : ∀ r ∈ tr, ∀ S, r.event.posts S = true →
    r.post.phase r.pre.sys.current = .idle ∧ ∀ t, ¬r.pre.Blocked S t
  getvalue : ∀ r ∈ tr, r.event.reads = true → ∀ S, r.post.valueOf S = r.pre.valueOf S

theorem Kept.snoc {tr : List (Record (State n) (Event n))} (kept : Kept tr s) (proper : Proper s e)
    (stepped : Psem.step e s = some s') : Kept (tr ++ [⟨s, e, s'⟩]) s' := by
  refine ⟨kept.ok.step proper stepped, fun r hr S posts => ?_, fun r hr reads S => ?_⟩
  · rcases List.mem_append.mp hr with hr | hr
    · exact kept.post r hr S posts
    · obtain rfl := List.mem_singleton.mp hr
      exact post_returns kept.ok proper posts stepped
  · rcases List.mem_append.mp hr with hr | hr
    · exact kept.getvalue r hr reads S
    · obtain rfl := List.mem_singleton.mp hr
      exact reads_valueOf kept.ok reads stepped S

end

/-- As long as no semaphore is a resource and every post finds the count positive, no more waits
succeed than there are places and posts, a post returns when nobody waits, and
`rt_psem_getvalue` keeps the value. -/
theorem psems_accounted {timer : Timer} {tr : List (Record (State n) (Event n))} {s : State n}
    (run : Run step Proper (boot n timer) tr s) : Accounted tr s := by
  have kept : Kept tr s := by
    refine run.history (P := Kept) ⟨boot_ok n timer, fun r hr => ?_, fun r hr => ?_⟩ Kept.snoc
    · cases hr
    · cases hr
  refine ⟨fun S v set => ?_, fun r hr S posts => ?_, fun r hr reads S _ _ => ?_⟩
  · exact (kept.ok.accounted set).trans (Nat.le_add_right v _)
  · obtain ⟨returns, none⟩ := kept.post r hr S posts
    exact ⟨returns, fun ⟨t, blocked⟩ => absurd blocked (none t)⟩
  · exact kept.getvalue r hr reads S

/-- A waiting task gets the semaphore from a `rt_psem_getvalue` that gives it back. -/
theorem psems_accounted_reads : ∃ tr s, Accounted (n := 2) tr s ∧ s.waits (.user 0) = 1 ∧
    (s.sys.sem (.user 0)).count = 0 := by
  let c : Clock := {}
  obtain ⟨tr, s, run, here⟩ := Run.of_execute step Proper
    (boot 2 { oneshotTimer := true, oneshotRunning := true })
    [.start (.taskInit 1 10 true) c, .start (.taskInit 2 5 true) c,
      .init (.user 0) 0 1 c, .init (.user 1) 0 0 c, .start (.taskResume 1) c,
      .start (.taskResume 2) c, .call (.timedwait 100) (.user 1) c, .call .getvalue (.user 0) c,
      .timer { sched := 100 }, .resume { sched := 100 }, .call .wait (.user 0) { sched := 100 },
      .giveBack { sched := 100 }, .resume { sched := 100 }]
    (fun s => s.waits (.user 0) = 1 ∧ (s.sys.sem (.user 0)).count = 0) (by decide +kernel)
  exact ⟨tr, s, psems_accounted run, of_decide_eq_true here⟩

/-- A post of a semaphore that nobody has takes the CPU from its caller. -/
theorem not_accounted_posted : ¬∀ (n : Nat) (timer : Timer)
    (tr : List (Record (State n) (Event n))) (s : State n),
    Run step (fun _ _ => True) (boot n timer) tr s → Accounted tr s := by
  intro accounted
  let c : Clock := {}
  obtain ⟨tr, s, run, here⟩ := Run.of_records step (fun _ _ => True)
    (boot 1 { oneshotTimer := true, oneshotRunning := true })
    [.start (.taskInit 1 10 true) c, .init (.user 0) 0 0 c, .start (.taskResume 1) c,
      .call .post (.user 0) c]
    (fun tr _ => tr.any fun r =>
      r.event.posts (.user 0) ∧ r.post.phase r.pre.sys.current ≠ .idle) (by decide +kernel)
  obtain ⟨r, hr, here⟩ := List.any_eq_true.mp here
  obtain ⟨posts, stays⟩ := of_decide_eq_true here
  exact stays ((accounted 1 _ tr s run).post r hr _ posts).1

end Rtai.Up.Psem
