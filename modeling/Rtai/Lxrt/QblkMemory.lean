import Rtai.Lxrt.QblkQueues

/-!
# The memory of the qBlks

A dynamic block is on the free list, or it has been handed out by `rt_qDynInit` and not been
released since.  `Kept` says so of the pointers; a block that is in a queue has been handed out
or is the caller's own memory.

Nothing in the code knows that a block is on the free list.  A block that is released there
once more is linked to itself, one that is scheduled takes the list with it, and one that is
released while the task waits for it is freed by both loops of `rt_qCleanup`.  These loops do
not come to the blocks before `TQ->wait` and to those that are being executed, and do not look
at `lnk`.  `memory_kept` is about the runs without that.
-/

namespace Rtai.Lxrt.Qblk

open Function Rtai.Lib

variable {α : Type} [DecidableEq α]

/-! ## Calls and executions -/

inductive Event (α : Type) where
  | qDynAlloc (n : Nat) (found : List (Option α))
  | qDynInit (lnk : Option Nat) (found : Option α)
  | qDynFree (n : Int32)
  | qBlkInit (b : α)
  | qBlkWait (b : α) (tic now : Int)
  | qBlkRepeat (b : α) (tic now : Int)
  | qBlkCancel (b : α)
  | qBlkRelease (b : α)
  /-- The `tqadjust` of `rt_qSync` and `rt_qStep`. -/
  | adjust (now : Int)
  /-- `tqcomplete(TQ->hook.head)` up to the `exec_func` in it. -/
  | execute
  /-- The function that is executed returns. -/
  | ret (now : Int)
  | qCleanup
deriving DecidableEq

/-- The calls that can be made without a `TickQueue`. -/
def Event.unbound : Event α → Bool
  | .qDynInit _ _ | .qBlkInit _ => true
  | _ => false

namespace State

/-- The memory is that of a block. -/
def known (b : α) (s : State α) : Bool := s.heap b || s.static b

variable [Fintype α]

/-- `rt_qBlkInit` is for memory of the caller's own that is not hooked. -/
def serveEvent : Event α → State α → Option (State α)
  | .qDynAlloc n found, s => s.qDynAlloc n found
  | .qDynInit lnk found, s => s.qDynInit lnk found
  | .qDynFree n, s => s.qDynFree n
  | .qBlkInit b, s => if s.heap b ∨ s.queues.hook b ≠ none then none else some (s.qBlkInit b)
  | .qBlkWait b tic now, s => if s.known b then s.qBlkWait b tic now else none
  | .qBlkRepeat b tic now, s => if s.known b then s.qBlkRepeat b tic now else none
  | .qBlkCancel b, s => if s.known b then s.qBlkCancel b else none
  | .qBlkRelease b, s => if s.known b then s.qBlkRelease b else none
  | .adjust now, s => s.tqadjust now
  | .execute, s =>
      match s.queues.head .tick with
      | none => none
      | some b => if s.wait = some b then none else s.tqcomplete b
  | .ret now, s =>
      match s.frames with
      | [] => none
      | b :: rest => { s with frames := rest }.tqcompleted b now
  | .qCleanup, s => s.qCleanup

def step (e : Event α) (s : State α) : Option (State α) :=
  if s.tickQueue || e.unbound then s.serveEvent e else none

/-- The blocks from `TQ->wait` on. -/
def pending (s : State α) : List α := (s.drain s.wait).getD []

/-- The block is not on the free list, and not the one that the task waits for when it is
released; and the blocks that `rt_qCleanup` comes to in the tick queue are the dynamic ones in
there, none of which is executed. -/
def Proper (s : State α) : Event α → Prop
  | .qBlkWait b _ _ | .qBlkRepeat b _ _ | .qBlkCancel b => s.handed b = true ∨ s.static b = true
  | .qBlkRelease b => (s.handed b = true ∨ s.static b = true) ∧ s.wait ≠ some b
  | .qCleanup =>
      (∀ b ∈ s.pending, s.static b = false) ∧
      (∀ b, s.queues.hook b = some .tick → b ∉ s.pending → s.static b = true) ∧
      ∀ b, s.queues.hook b = some .exec → s.static b = true
  | _ => True

instance (s : State α) (e : Event α) : Decidable (s.Proper e) := by
  cases e <;> simp only [Proper] <;> infer_instance

/-! ## What the memory is -/

/-- The queues are `l` and the free list is `free`. -/
structure Kept (s : State α) (l : Hook → List α) (free : List α) : Prop where
  formed : s.WellFormed l
  chain : Chain s.queues.nxt s.free free
  owner : ∀ b, b ∈ free ↔ s.heap b = true ∧ s.handed b = false
  handed : ∀ b, s.handed b = true → s.heap b = true
  apart : ∀ b, s.heap b = true → s.static b = false
  hooked : ∀ b h, s.queues.hook b = some h → s.handed b = true ∨ s.static b = true
  dynamic : ∀ b, s.heap b = true → s.lnk b ≠ .nullLnk
  static : ∀ b, s.static b = true → s.lnk b = .nullLnk

/-- The fields that say whose a block is. -/
structure SameMemory (s s' : State α) : Prop where
  free : s'.free = s.free
  heap : s'.heap = s.heap
  handed : s'.handed = s.handed
  static : s'.static = s.static
  lnk : s'.lnk = s.lnk
  tickQueue : s'.tickQueue = s.tickQueue
  freed : s'.freed = s.freed

omit [DecidableEq α] [Fintype α] in
theorem SameMemory.trans {s s' s'' : State α} (h : SameMemory s s') (h' : SameMemory s' s'') :
    SameMemory s s'' :=
  ⟨h'.free.trans h.free, h'.heap.trans h.heap, h'.handed.trans h.handed,
    h'.static.trans h.static, h'.lnk.trans h.lnk, h'.tickQueue.trans h.tickQueue,
    h'.freed.trans h.freed⟩

namespace Kept

variable {s s' : State α} {l l' : Hook → List α} {free : List α} {b cur : α} {h : Hook}
  {q : Queues α} {now : Int}

section

omit [DecidableEq α] [Fintype α]

/-- A free block is in no queue. -/
theorem idle (k : Kept s l free) (mem : b ∈ free) : s.queues.hook b = none := by
  obtain ⟨heap, handed⟩ := (k.owner b).mp mem
  rw [← Option.not_isSome_iff_eq_none, Option.isSome_iff_exists]
  rintro ⟨h, own⟩
  rcases k.hooked b h own with out | mine
  · cases out.symm.trans handed
  · cases mine.symm.trans (k.apart b heap)

theorem out (k : Kept s l free) (own : s.handed b = true ∨ s.static b = true) : b ∉ free := by
  intro mem
  obtain ⟨heap, handed⟩ := (k.owner b).mp mem
  rcases own with out | mine
  · cases out.symm.trans handed
  · cases mine.symm.trans (k.apart b heap)

/-- The queues are others, and the free blocks are linked as before. -/
theorem move (k : Kept s l free) (same : SameMemory s s') (formed : s'.WellFormed l')
    (nxt : ∀ b ∈ free, s'.queues.nxt b = s.queues.nxt b)
    (hooked : ∀ b h, s'.queues.hook b = some h →
      s.queues.hook b ≠ none ∨ s.handed b = true ∨ s.static b = true) : Kept s' l' free := by
  refine ⟨formed, ?_, ?_, ?_, ?_, fun b h own => ?_, ?_, ?_⟩
  · rw [same.free]
    exact k.chain.frame nxt
  · rw [same.heap, same.handed]
    exact k.owner
  · rw [same.heap, same.handed]
    exact k.handed
  · rw [same.heap, same.static]
    exact k.apart
  · rw [same.handed, same.static]
    rcases hooked b h own with before | own
    · obtain ⟨h', own'⟩ := Option.ne_none_iff_exists'.mp before
      exact k.hooked b h' own'
    · exact own
  · rw [same.heap, same.lnk]
    exact k.dynamic
  · rw [same.static, same.lnk]
    exact k.static

end

section

omit [Fintype α]

/-- A block leaves its queue. -/
theorem unhooked (k : Kept s l free) (spec : Queues.Unhooked cur s.queues q l)
    (other : s.wait ≠ some cur) : Kept { s with queues := q } (without cur l) free := by
  refine k.move ⟨rfl, rfl, rfl, rfl, rfl, rfl, rfl⟩ (k.formed.unhooked spec other)
    (fun b mem => spec.nxt b (k.idle mem)) fun b h own => .inl fun none => ?_
  have own : q.hook b = some h := own
  rw [spec.hook] at own
  by_cases self : b = cur
  · rw [self, update_self] at own
    cases own
  · rw [update_of_ne self, none] at own
    cases own

/-- A block comes to the free list. -/
theorem push (k : Kept s l free) (new : cur ∉ free) (out : s.queues.hook cur = none)
    (formed : s'.WellFormed l) (first : s'.free = some cur)
    (nxt : s'.queues.nxt = update s.queues.nxt cur s.free)
    (hook : s'.queues.hook = s.queues.hook) (heap : s'.heap = update s.heap cur true)
    (handed : s'.handed = update s.handed cur false) (static : s'.static = s.static)
    (mine : s.static cur = false) (lnk : s'.lnk cur ≠ .nullLnk)
    (others : ∀ b, b ≠ cur → s'.lnk b = s.lnk b) : Kept s' l (cur :: free) := by
  refine ⟨formed, ⟨first, ?_⟩, fun b => ?_, fun b => ?_, fun b => ?_, fun b h own => ?_, fun b => ?_,
    fun b => ?_⟩
  · rw [nxt, update_self]
    refine k.chain.frame fun b mem => update_of_ne ?_ _ _
    rintro rfl
    exact new mem
  all_goals by_cases self : b = cur
  · simp [self, heap, handed]
  · rw [List.mem_cons, heap, handed, update_of_ne self, update_of_ne self, ← k.owner b]
    simp [self]
  · simp [self, handed]
  · rw [handed, heap, update_of_ne self, update_of_ne self]
    exact k.handed b
  · rw [static, self, mine]
    exact fun _ => rfl
  · rw [heap, static, update_of_ne self]
    exact k.apart b
  · rw [hook, self, out] at own
    cases own
  · rw [hook] at own
    rw [handed, static, update_of_ne self]
    exact k.hooked b h own
  · rw [self]
    exact fun _ => lnk
  · rw [heap, update_of_ne self, others b self]
    exact k.dynamic b
  · rw [static, self, mine]
    exact fun e => absurd e Bool.false_ne_true
  · rw [static, others b self]
    exact k.static b

theorem released (k : Kept s l free) (own : s.handed cur = true ∨ s.static cur = true)
    (other : s.wait ≠ some cur) :
    ∃ s' free', s.qBlkRelease cur = some s' ∧ Kept s' (without cur l) free' ∧
      s'.tickQueue = s.tickQueue := by
  obtain ⟨q, unhooked, spec⟩ := Queues.unhookIf_spec k.formed.hooks cur
  have k₁ := k.unhooked spec other
  have out : q.hook cur = none := by rw [spec.hook, update_self]
  have pushed := k₁.formed.pushFree out
  have lent (dynamic : s.lnk cur ≠ .nullLnk) : s.handed cur = true ∧ s.static cur = false := by
    have mine : s.static cur = false := eq_false_of_ne_true fun e => dynamic (k.static cur e)
    exact ⟨own.resolve_right (by simp [mine]), mine⟩
  have same (handed : s.handed cur = true) : s.heap = update s.heap cur true := by
    rw [← k.handed cur handed, update_eq_self]
  rw [qBlkRelease, run_eq unhooked]
  simp only [Option.bind_eq_bind, Option.bind_some]
  split
  next => exact ⟨_, free, rfl, k₁, rfl⟩
  next lnk =>
    obtain ⟨handed, mine⟩ := lent (by simp [lnk])
    refine ⟨_, _, rfl, k₁.push (k.out own) out ⟨pushed.hooks, pushed.wait⟩ rfl rfl rfl (same handed)
      rfl rfl mine ?_ fun _ _ => rfl, rfl⟩
    show s.lnk cur ≠ _
    simp [lnk]
  next p lnk =>
    obtain ⟨handed, mine⟩ := lent (by simp [lnk])
    refine ⟨_, _, rfl, k₁.push (k.out own) out ⟨pushed.hooks, pushed.wait⟩ rfl rfl rfl (same handed)
      rfl rfl mine ?_ fun _ _ => rfl, rfl⟩
    show s.lnk cur ≠ _
    simp [lnk]

end

/-! ### The tick queue -/

omit [Fintype α] in
/-- A block comes to a queue. -/
theorem moved (k : Kept s l free) (own : s.handed cur = true ∨ s.static cur = true)
    (spec : Queues.Moved cur h s.queues q l') (queues : s'.queues = q) (formed : s'.WellFormed l')
    (same : SameMemory s s') : Kept s' l' free := by
  refine k.move same formed (fun b mem => ?_) fun b h' here => ?_
  · rw [queues]
    refine spec.nxt b ?_ (k.idle mem)
    rintro rfl
    exact k.out own mem
  · rw [queues, spec.hook] at here
    by_cases self : b = cur
    · rw [self]
      exact .inr own
    · rw [update_of_ne self] at here
      exact .inl (by simp [here])

omit [Fintype α] in
theorem dequeued (k : Kept s l free) (cur : α) :
    ∃ s', s.qBlkDequeue cur = some s' ∧ Kept s' (without cur l) free ∧ SameMemory s s' ∧
      s'.queues.hook cur = none ∧ s'.wait ≠ some cur := by
  have ticks {w : α} (e : s.wait = some w) : s.queues.hook w = some .tick :=
    (k.formed.hooks.hook w .tick).mpr (k.formed.wait w e)
  have leaves {s₁ : State α} {h : Hook} (k₁ : Kept s₁ l free) (same : SameMemory s s₁)
      (own : s₁.queues.hook cur = some h) (other : s₁.wait ≠ some cur) :
      ∃ s', s₁.run (Queues.qBlkUnhook cur) = some s' ∧ Kept s' (without cur l) free ∧
        SameMemory s s' ∧ s'.queues.hook cur = none ∧ s'.wait ≠ some cur := by
    obtain ⟨q, called, spec⟩ := Queues.qBlkUnhook_spec k₁.formed.hooks own
    refine ⟨_, run_eq called, k₁.unhooked spec other, same.trans ⟨rfl, rfl, rfl, rfl, rfl, rfl, rfl⟩,
      ?_, other⟩
    show q.hook cur = none
    rw [spec.hook, update_self]
  unfold qBlkDequeue
  split
  next out =>
    rw [Queues.without_free k.formed.hooks out]
    refine ⟨s, rfl, k, ⟨rfl, rfl, rfl, rfl, rfl, rfl, rfl⟩, out, fun e => ?_⟩
    cases out.symm.trans (ticks e)
  next own =>
    -- `TQ->wait` goes on to the next block
    have nxt := Queues.nxt_ne k.formed.hooks own
    have passed : ∀ w, (s.tqcancel cur).wait = some w → s.queues.hook w = some .tick := by
      intro w e
      by_cases waits : s.wait = some cur
      · exact k.formed.hooks.nxt_hook own ((if_pos waits).symm.trans e)
      · exact ticks ((if_neg waits).symm.trans e)
    have other : (s.tqcancel cur).wait ≠ some cur := by
      by_cases waits : s.wait = some cur
      · exact fun e => nxt ((if_pos waits).symm.trans e)
      · exact fun e => waits ((if_neg waits).symm.trans e)
    refine leaves (k.move ⟨rfl, rfl, rfl, rfl, rfl, rfl, rfl⟩ ⟨k.formed.hooks, fun w e => ?_⟩
      (fun _ _ => rfl) fun b h here => .inl ?_) ⟨rfl, rfl, rfl, rfl, rfl, rfl, rfl⟩ own other
    · exact (k.formed.hooks.hook w .tick).mp (passed w e)
    · exact Option.ne_none_iff_exists'.mpr ⟨h, here⟩
  next h other own =>
    refine leaves k ⟨rfl, rfl, rfl, rfl, rfl, rfl, rfl⟩ own fun e => other ?_
    exact Option.some.inj (own.symm.trans (ticks e))

/-- A loop from `TQ->wait` on comes to its end in the tick queue. -/
theorem walked {σ : Type} (k : Kept s l free) (stop : σ → α → Bool) (body : σ → α → σ) (st : σ) :
    ∃ p st', walk s.queues.nxt stop body (fuel α) s.wait st = some (p, st') ∧
      ∀ w, p = some w → w ∈ l .tick := by
  obtain ⟨l₁, l₂, split, wait, -⟩ := putAll_split k.formed.wait
  have chain := k.formed.hooks.chain_from split
  rw [wait] at chain
  obtain ⟨m₁, m₂, parts, -, walked, -⟩ :=
    Chain.walk stop body (s := st) chain (Nat.lt_succ_of_le chain.length_le)
  refine ⟨m₂.head?, _, walked, fun w e => ?_⟩
  rw [split, parts]
  simp [List.mem_of_head? e]

theorem adjusted (k : Kept s l free) (now : Int) :
    ∃ s', s.tqadjust now = some s' ∧ Kept s' l free ∧ SameMemory s s' ∧
      s'.queues = s.queues := by
  have same {wait : Option α} {tic : Int} {blkTic : α → Int} :
      SameMemory s { s with wait, tic, blkTic } := ⟨rfl, rfl, rfl, rfl, rfl, rfl, rfl⟩
  have keeps {wait : Option α} {tic : Int} {blkTic : α → Int}
      (here : ∀ w, wait = some w → w ∈ l .tick) : Kept { s with wait, tic, blkTic } l free :=
    k.move same ⟨k.formed.hooks, here⟩ (fun _ _ => rfl) fun b h own =>
      .inl (Option.ne_none_iff_exists'.mpr ⟨h, own⟩)
  unfold tqadjust
  split
  next => exact ⟨_, rfl, keeps k.formed.wait, same, rfl⟩
  next =>
    obtain ⟨p, ⟨tic, blkTic⟩, walked, here⟩ := k.walked later pass (now - s.tic, s.blkTic)
    rw [walked]
    exact ⟨_, rfl, keeps here, same, rfl⟩

theorem inserted (k : Kept s l free) (out : s.queues.hook cur = none)
    (own : s.handed cur = true ∨ s.static cur = true) (tic : Int) (rpt : Bool) (now : Int) :
    ∃ s' l', s.tqinsert cur tic rpt now = some s' ∧ Kept s' l' free ∧ SameMemory s s' := by
  let s₀ : State α := { s with blkRpt := update s.blkRpt cur (if rpt then tic else 0) }
  have k₀ : Kept s₀ l free :=
    k.move ⟨rfl, rfl, rfl, rfl, rfl, rfl, rfl⟩ ⟨k.formed.hooks, k.formed.wait⟩ (fun _ _ => rfl)
      fun b h here => .inl (Option.ne_none_iff_exists'.mpr ⟨h, here⟩)
  have same₀ : SameMemory s s₀ := ⟨rfl, rfl, rfl, rfl, rfl, rfl, rfl⟩
  obtain ⟨s₁, adjusted, k₁, same₁, queues⟩ := k₀.adjusted now
  have same := same₀.trans same₁
  obtain ⟨nxt, left, walked, here⟩ := k₁.walked (fun tic nxt => tic < s₁.blkTic nxt)
    (fun tic nxt => tic - s₁.blkTic nxt) tic
  have out₁ : s₁.queues.hook cur = none := by rw [queues]; exact out
  have own₁ : s₁.handed cur = true ∨ s₁.static cur = true := by
    rw [same.handed, same.static]
    exact own
  obtain ⟨wait, chosen, late⟩ : ∃ wait, (if s₁.wait.any fun w => s₁.blkTic w ≤ tic then s₁
      else if tic = 0 then s₁ else { s₁ with wait := some cur }) = { s₁ with wait } ∧
      ∀ w, wait = some w → w = cur ∨ w ∈ l .tick := by
    split
    · exact ⟨_, rfl, fun w e => .inr (k₁.formed.wait w e)⟩
    · split
      · exact ⟨_, rfl, fun w e => .inr (k₁.formed.wait w e)⟩
      · exact ⟨_, rfl, fun w e => .inl (Option.some.inj e).symm⟩
  have ends {q : Queues α} {l' : Hook → List α} {blkTic : α → Int}
      (moved : Queues.Moved cur .tick s₁.queues q l') :
      Kept { s₁ with wait, queues := q, blkTic } l' free := by
    refine k₁.moved own₁ moved rfl ⟨moved.hooks, fun w e => ?_⟩ ⟨rfl, rfl, rfl, rfl, rfl, rfl, rfl⟩
    rw [← moved.hooks.hook w .tick, moved.hook]
    rcases late w e with rfl | here
    · exact update_self _ _ _
    · have ticks := (k₁.formed.hooks.hook w .tick).mpr here
      have other : w ≠ cur := by
        rintro rfl
        cases ticks.symm.trans out₁
      rw [update_of_ne other, ticks]
  unfold tqinsert
  rw [adjusted]
  simp only [Option.bind_eq_bind, Option.bind_some, walked, chosen]
  cases nxt with
  | none =>
      obtain ⟨q, called, moved⟩ := Queues.qBlkAtTail_spec (h := .tick) k₁.formed.hooks cur
      exact ⟨_, _, Option.bind_eq_some_iff.mpr ⟨_, run_eq called, rfl⟩, ends moved,
        same.trans ⟨rfl, rfl, rfl, rfl, rfl, rfl, rfl⟩⟩
  | some n =>
      have target := (k₁.formed.hooks.hook n .tick).mpr (here n rfl)
      have other : n ≠ cur := by
        rintro rfl
        cases target.symm.trans out₁
      obtain ⟨q, called, moved⟩ := Queues.qBlkBefore_spec k₁.formed.hooks other target
      exact ⟨_, _, Option.bind_eq_some_iff.mpr ⟨_, run_eq called, rfl⟩, ends moved,
        same.trans ⟨rfl, rfl, rfl, rfl, rfl, rfl, rfl⟩⟩

/-! ### Memory -/

section

omit [Fintype α]

/-- What `rt_malloc` has found is in no queue, and not on the free list. -/
theorem fresh {s₁ : State α} (k : Kept s l free) (found : s.malloc b = some s₁) :
    s₁ = { s with heap := update s.heap b true } ∧ s.queues.hook b = none ∧ b ∉ free ∧
      s.handed b = false ∧ s.static b = false := by
  unfold malloc at found
  split at found
  next => cases found
  next new =>
    cases found
    obtain ⟨heap, mine⟩ : s.heap b = false ∧ s.static b = false := by simpa using new
    have handed : s.handed b = false := eq_false_of_ne_true fun e =>
      Bool.false_ne_true (heap.symm.trans (k.handed b e))
    refine ⟨rfl, ?_, fun mem => ?_, handed, mine⟩
    · rw [← Option.not_isSome_iff_eq_none, Option.isSome_iff_exists]
      rintro ⟨h, own⟩
      rcases k.hooked b h own with out | static
      · cases handed.symm.trans out
      · cases mine.symm.trans static
    · cases heap.symm.trans ((k.owner b).mp mem).1

theorem allocated {n : Nat} {found : List (Option α)} (k : Kept s l free)
    (called : s.qDynAlloc n found = some s') :
    ∃ free', Kept s' l free' ∧ s'.tickQueue = s.tickQueue := by
  induction n generalizing s found free with
  | zero =>
      cases called
      exact ⟨free, k, rfl⟩
  | succ n ih =>
      match found, called with
      | none :: found, called =>
          cases called
          exact ⟨free, k, rfl⟩
      | some b :: found, called =>
          obtain ⟨s₁, malloc, called⟩ := Option.bind_eq_some_iff.mp called
          obtain ⟨rfl, out, new, handed, mine⟩ := k.fresh malloc
          have hook : update s.queues.hook b none = s.queues.hook := by
            rw [← out, update_eq_self]
          have apart {c : α} {h : Hook} (own : s.queues.hook c = some h) : c ≠ b := by
            rintro rfl
            cases out.symm.trans own
          let s₂ : State α := (zero b { s with heap := update s.heap b true }).pushFree b
          have formed : s₂.WellFormed l := by
            refine ⟨k.formed.hooks.frame rfl rfl hook (fun c h own => ?_)
              (fun c h own => update_of_ne (apart own) _ _), k.formed.wait⟩
            show update (update s.queues.nxt b none) b s.free c = s.queues.nxt c
            rw [update_of_ne (apart own), update_of_ne (apart own)]
          have kept : Kept s₂ l (b :: free) := by
            refine k.push new out formed rfl (update_idem ..) hook rfl ?_ rfl mine ?_
              fun c other => update_of_ne other _ _
            · show s.handed = update s.handed b false
              rw [← handed, update_eq_self]
            · show update s.lnk b .null b ≠ .nullLnk
              simp
          obtain ⟨free', kept', same⟩ := ih kept called
          exact ⟨free', kept', same⟩

/-- A block is handed out. -/
theorem lend {rest : List α} (k : Kept s l free) (out : s.queues.hook b = none)
    (mine : s.static b = false) (formed : s'.WellFormed l) (hook : s'.queues.hook = s.queues.hook)
    (chain : Chain s'.queues.nxt s'.free rest) (mem : ∀ c, c ∈ rest ↔ c ∈ free ∧ c ≠ b)
    (heap : s'.heap = update s.heap b true) (handed : s'.handed = update s.handed b true)
    (static : s'.static = s.static) (lnk : s'.lnk b ≠ .nullLnk)
    (others : ∀ c, c ≠ b → s'.lnk c = s.lnk c) : Kept s' l rest := by
  refine ⟨formed, chain, fun c => ?_, fun c => ?_, fun c => ?_, fun c h own => ?_, fun c => ?_,
    fun c => ?_⟩
  all_goals by_cases self : c = b
  · simp [mem, self, handed]
  · rw [mem, heap, handed, update_of_ne self, update_of_ne self, ← k.owner c]
    simp [self]
  · simp [self, heap]
  · rw [handed, heap, update_of_ne self, update_of_ne self]
    exact k.handed c
  · rw [static, self, mine]
    exact fun _ => rfl
  · rw [heap, static, update_of_ne self]
    exact k.apart c
  · rw [hook, self, out] at own
    cases own
  · rw [hook] at own
    rw [handed, static, update_of_ne self]
    exact k.hooked c h own
  · rw [self]
    exact fun _ => lnk
  · rw [heap, update_of_ne self, others c self]
    exact k.dynamic c
  · rw [static, self, mine]
    exact fun e => absurd e Bool.false_ne_true
  · rw [static, others c self]
    exact k.static c

variable {lnk : Option Nat}

theorem dynInit_lnk : (s.dynInit lnk b).lnk b ≠ .nullLnk := by
  cases lnk <;> simp [dynInit]

/-- The block that `rt_qDynInit` returns was in no queue, and not in anybody's hands. -/
theorem initialised {found : Option α} (k : Kept s l free)
    (called : s.qDynInit lnk found = some s') :
    ∃ free', Kept s' l free' ∧ s'.tickQueue = s.tickQueue ∧
      ∀ b, s'.value = some b → s.queues.hook b = none ∧ s.handed b = false := by
  have hook {b : α} (out : s.queues.hook b = none) :
      update s.queues.hook b none = s.queues.hook := by rw [← out, update_eq_self]
  unfold qDynInit at called
  split at called
  next =>
    cases called
    exact ⟨free, k.move ⟨rfl, rfl, rfl, rfl, rfl, rfl, rfl⟩ ⟨k.formed.hooks, k.formed.wait⟩
      (fun _ _ => rfl) (fun b h own => .inl (by simp [show s.queues.hook b = some h from own])),
      rfl, fun b e => by cases e⟩
  next =>
    split at called
    next b first =>
      -- the first of the free list
      cases called
      obtain ⟨rest, rfl⟩ : ∃ rest, free = b :: rest := by
        cases free with
        | nil => cases first.symm.trans k.chain
        | cons c rest => exact ⟨rest, by rw [Option.some.inj (first.symm.trans k.chain.1)]⟩
      obtain ⟨heap, handed⟩ := (k.owner b).mp (.head _)
      have out := k.idle (.head _)
      have new := (List.nodup_cons.mp k.chain.nodup).1
      refine ⟨rest, k.lend out (k.apart b heap) ⟨k.formed.hooks.frame rfl rfl (hook out)
        (fun _ _ _ => rfl) fun _ _ _ => rfl, k.formed.wait⟩ (hook out) k.chain.2 (fun c => ?_) ?_ rfl rfl
        dynInit_lnk fun c other => update_of_ne other _ _, rfl, fun c e => ?_⟩
      · refine ⟨fun mem => ⟨.tail _ mem, ?_⟩, fun mem => ?_⟩
        · rintro rfl
          exact new mem
        · exact (List.mem_cons.mp mem.1).resolve_left mem.2
      · show s.heap = update s.heap b true
        rw [← heap, update_eq_self]
      · cases e
        exact ⟨out, handed⟩
    next first =>
      obtain rfl : free = [] := by
        cases free with
        | nil => rfl
        | cons c rest => cases first.symm.trans k.chain.1
      split at called
      next =>
        cases called
        exact ⟨[], k.move ⟨rfl, rfl, rfl, rfl, rfl, rfl, rfl⟩ ⟨k.formed.hooks, k.formed.wait⟩
          (fun _ _ => rfl) (fun b h own => .inl (by simp [show s.queues.hook b = some h from own])),
          rfl, fun b e => by cases e⟩
      next b =>
        obtain ⟨s₁, malloc, rfl⟩ := Option.map_eq_some_iff.mp called
        obtain ⟨rfl, out, -, handed, mine⟩ := k.fresh malloc
        refine ⟨[], k.lend out mine ⟨k.formed.hooks.frame rfl rfl (hook out) (fun _ _ _ => rfl)
          fun _ _ _ => rfl, k.formed.wait⟩ (hook out) k.chain (fun c => by simp) rfl rfl rfl dynInit_lnk
          fun c other => update_of_ne other _ _, rfl, fun c e => ?_⟩
        cases e
        exact ⟨out, handed⟩

theorem rtFree_foldl (m : List α) (s : State α) : m.foldl rtFree s = { s with
    heap := fun b => if b ∈ m then false else s.heap b
    freed := s.freed ++ m } := by
  induction m generalizing s with
  | nil => simp
  | cons a m ih =>
      rw [List.foldl_cons, ih]
      have heap : (fun b => if b ∈ m then false else update s.heap a false b) =
          fun b => if b ∈ a :: m then false else s.heap b := by
        funext b
        by_cases self : b = a
        · simp [self]
        · simp [self]
      simp only [rtFree, heap, List.append_assoc, List.singleton_append]

end

omit [DecidableEq α] [Fintype α] in
theorem freeOne_foldl (m : List α) (p : Int32 × List α) : (m.foldl freeOne p).2 = p.2 ++ m := by
  induction m generalizing p with
  | nil => simp
  | cons a m ih =>
      rw [List.foldl_cons, ih, freeOne]
      simp

theorem dynFreed {n : Int32} (k : Kept s l free) (called : s.qDynFree n = some s') :
    ∃ free', Kept s' l free' ∧ s'.tickQueue = s.tickQueue := by
  obtain ⟨m, rest, rfl, chain, walked, -⟩ :=
    k.chain.walk spent freeOne (s := (n, [])) (Nat.lt_succ_of_le k.chain.length_le)
  have walked : walk s.queues.nxt spent freeOne (fuel α) s.free (n, []) = _ := walked
  rw [qDynFree, walked] at called
  obtain rfl := Option.some.inj called
  have nodup := List.nodup_append.mp k.chain.nodup
  have gone : (m.foldl freeOne (n, [])).2 = m := freeOne_foldl m _
  rw [gone, rtFree_foldl]
  have out {b : α} (handed : s.handed b = true) : b ∉ m := fun mem =>
    k.out (.inl handed) (List.mem_append_left _ mem)
  refine ⟨rest, ⟨⟨k.formed.hooks, k.formed.wait⟩, chain, fun b => ?_, fun b handed => ?_,
    fun b heap => ?_, k.hooked, fun b heap => ?_, k.static⟩, rfl⟩
  · have owner := k.owner b
    by_cases freed : b ∈ m
    · have other : b ∉ rest := fun mem => nodup.2.2 b freed b mem rfl
      simp [freed, other]
    · simpa [freed] using owner
  · show (if b ∈ m then false else s.heap b) = true
    rw [if_neg (out handed)]
    exact k.handed b handed
  all_goals
    have kept : s.heap b = true := by
      have heap : (if b ∈ m then false else s.heap b) = true := heap
      split at heap
      · cases heap
      · exact heap
  · exact k.apart b kept
  · exact k.dynamic b kept

omit [Fintype α] in
theorem blkInit (k : Kept s l free) (heap : s.heap b = false) (out : s.queues.hook b = none) :
    Kept (s.qBlkInit b) l free := by
  have hook : update s.queues.hook b none = s.queues.hook := by rw [← out, update_eq_self]
  have other {c : α} (here : s.heap c = true) : c ≠ b := by
    rintro rfl
    cases heap.symm.trans here
  refine ⟨⟨k.formed.hooks.frame rfl rfl hook (fun _ _ _ => rfl) fun _ _ _ => rfl, k.formed.wait⟩,
    k.chain, k.owner, k.handed, fun c here => ?_, fun c h own => ?_, fun c here => ?_, fun c mine => ?_⟩
  · show update s.static b true c = false
    rw [update_of_ne (other here)]
    exact k.apart c here
  · have own : update s.queues.hook b none c = some h := own
    rw [hook] at own
    refine (k.hooked c h own).imp_right fun mine => ?_
    show update s.static b true c = true
    by_cases self : c = b
    · rw [self, update_self]
    · rw [update_of_ne self, mine]
  · show update s.lnk b .nullLnk c ≠ .nullLnk
    rw [update_of_ne (other here)]
    exact k.dynamic c here
  · show update s.lnk b .nullLnk c = .nullLnk
    by_cases self : c = b
    · rw [self, update_self]
    · rw [update_of_ne self]
      have mine : update s.static b true c = true := mine
      rw [update_of_ne self] at mine
      exact k.static c mine

omit [Fintype α] in
/-- A block begins to be executed. -/
theorem completed (k : Kept s l free) (own : s.queues.hook cur = some h)
    (other : s.wait ≠ some cur) : ∃ s' l' free', s.tqcomplete cur = some s' ∧ Kept s' l' free' ∧
      s'.tickQueue = s.tickQueue := by
  have whose := k.hooked cur h own
  unfold tqcomplete
  split
  next =>
    obtain ⟨s₁, free', released, k₁, same⟩ := k.released whose other
    rw [released]
    exact ⟨_, _, free', rfl, k₁.move ⟨rfl, rfl, rfl, rfl, rfl, rfl, rfl⟩ ⟨k₁.formed.hooks,
      k₁.formed.wait⟩ (fun _ _ => rfl) fun b h own =>
        .inl (by simp [show s₁.queues.hook b = some h from own]), same⟩
  next =>
    obtain ⟨q, called, moved⟩ := Queues.qBlkAtHead_spec (h := .exec) k.formed.hooks cur
    have formed := k.formed.moved moved fun e => absurd e other
    rw [run_eq called]
    exact ⟨_, _, free, rfl, k.moved whose moved rfl ⟨formed.hooks, formed.wait⟩
      ⟨rfl, rfl, rfl, rfl, rfl, rfl, rfl⟩, rfl⟩

/-- The function of a block has returned. -/
theorem returned (k : Kept s l free) (called : s.tqcompleted cur now = some s') :
    ∃ l', Kept s' l' free ∧ s'.tickQueue = s.tickQueue := by
  unfold tqcompleted at called
  split at called
  next head =>
    have mem : cur ∈ l .exec := List.mem_of_head? ((k.formed.hooks.threaded .exec).head ▸ head)
    have own := (k.formed.hooks.hook cur .exec).mpr mem
    have other : s.wait ≠ some cur := fun e => by
      have ticks := (k.formed.hooks.hook cur .tick).mpr (k.formed.wait cur e)
      cases own.symm.trans ticks
    obtain ⟨q, unhooked, spec⟩ := Queues.qBlkUnhook_spec k.formed.hooks own
    have out : q.hook cur = none := by rw [spec.hook, update_self]
    obtain ⟨s₁, l', inserted, k', same⟩ :=
      (k.unhooked spec other).inserted out (k.hooked cur .exec own) (s.blkRpt cur) true now
    rw [run_eq unhooked] at called
    obtain rfl := Option.some.inj (inserted.symm.trans called)
    exact ⟨l', k', same.tickQueue⟩
  next =>
    cases called
    exact ⟨l, k, rfl⟩

/-- The other calls of a task. -/
theorem waited (k : Kept s l free) (own : s.handed cur = true ∨ s.static cur = true) {tic : Int}
    {rpt : Bool} (called : (s.qBlkDequeue cur).bind (·.tqinsert cur tic rpt now) = some s') :
    ∃ l', Kept s' l' free ∧ s'.tickQueue = s.tickQueue := by
  obtain ⟨s₁, dequeued, k₁, same, out, -⟩ := k.dequeued cur
  have own₁ : s₁.handed cur = true ∨ s₁.static cur = true := by
    rw [same.handed, same.static]
    exact own
  obtain ⟨s₂, l', inserted, k₂, same'⟩ := k₁.inserted out own₁ tic rpt now
  rw [dequeued] at called
  obtain rfl := Option.some.inj (inserted.symm.trans called)
  exact ⟨l', k₂, same'.tickQueue.trans same.tickQueue⟩

omit [Fintype α] in
theorem cancelled (k : Kept s l free) (own : s.handed cur = true ∨ s.static cur = true)
    (called : s.qBlkCancel cur = some s') :
    ∃ l' free', Kept s' l' free' ∧ s'.tickQueue = s.tickQueue := by
  obtain ⟨s₁, dequeued, k₁, same, -, other⟩ := k.dequeued cur
  have own₁ : s₁.handed cur = true ∨ s₁.static cur = true := by
    rw [same.handed, same.static]
    exact own
  obtain ⟨s₂, free', released, k₂, same'⟩ := k₁.released own₁ other
  rw [qBlkCancel, dequeued] at called
  obtain rfl := Option.some.inj (released.symm.trans called)
  exact ⟨_, free', k₂, same'.trans same.tickQueue⟩

/-! ### The end of the task -/

omit [DecidableEq α] in
/-- A loop of `rt_qCleanup` comes to a whole list. -/
theorem drained {p : Option α} {m : List α} (chain : Chain s.queues.nxt p m) :
    s.drain p = some m := by
  obtain ⟨m₁, m₂, split, -, walked, ends⟩ :=
    chain.walk (fun _ _ => false) (fun freed b => freed ++ [b]) (s := [])
      (Nat.lt_succ_of_le chain.length_le)
  have last : m₂ = [] := by
    cases m₂ with
    | nil => rfl
    | cons b m₂ => cases ends b rfl
  subst last
  rw [List.append_nil] at split
  have all (m : List α) (freed : List α) :
      m.foldl (fun freed b => freed ++ [b]) freed = freed ++ m := by
    induction m generalizing freed with
    | nil => simp
    | cons b m ih => simp [ih]
  have walked : walk s.queues.nxt (fun _ _ => false) (fun freed b => freed ++ [b]) (fuel α) p [] =
    _ := walked
  rw [drain, walked, split]
  simp [all]

/-- Every dynamic block that is free or in the tick queue is freed, once, and nothing else. -/
theorem cleaned (k : Kept s l free) (proper : s.Proper .qCleanup) : ∃ m : List α,
    s.qCleanup = some { m.foldl rtFree s with free := none, wait := none, tickQueue := false } ∧
      m.Nodup ∧ (∀ b ∈ m, s.static b = false) ∧
      ∀ b, b ∈ m ↔ s.heap b = true ∧ (s.handed b = false ∨ s.queues.hook b = some .tick ∨
        s.queues.hook b = some .exec) := by
  obtain ⟨l₁, l₂, split, wait, -⟩ := putAll_split k.formed.wait
  have chain := k.formed.hooks.chain_from split
  rw [wait] at chain
  have pending : s.pending = l₂ := by rw [State.pending, drained chain, Option.getD_some]
  obtain ⟨fromWait, expired, executed⟩ := proper
  rw [pending] at fromWait expired
  have ticks {b : α} (mem : b ∈ l₂) : s.queues.hook b = some .tick :=
    (k.formed.hooks.hook b .tick).mpr (split ▸ List.mem_append_right l₁ mem)
  have dynamic {b : α} (mem : b ∈ l₂) : s.handed b = true :=
    (k.hooked b .tick (ticks mem)).resolve_right (by simp [fromWait b mem])
  refine ⟨free ++ l₂, ?_, ?_, fun b mem => ?_, fun b => ?_⟩
  · rw [qCleanup, drained k.chain, drained chain]
    rfl
  · refine List.nodup_append.mpr ⟨k.chain.nodup, chain.nodup, ?_⟩
    rintro b mem _ mem' rfl
    cases (k.idle mem).symm.trans (ticks mem')
  · rcases List.mem_append.mp mem with mem | mem
    · exact k.apart b ((k.owner b).mp mem).1
    · exact fromWait b mem
  · rw [List.mem_append, k.owner]
    have mine (heap : s.heap b = true) : s.static b ≠ true := by simp [k.apart b heap]
    constructor
    · rintro (⟨heap, handed⟩ | mem)
      · exact ⟨heap, .inl handed⟩
      · exact ⟨k.handed b (dynamic mem), .inr (.inl (ticks mem))⟩
    · rintro ⟨heap, handed | tick | exec⟩
      · exact .inl ⟨heap, handed⟩
      · by_contra out
        exact mine heap (expired b tick fun mem => out (.inr mem))
      · exact absurd (executed b exec) (mine heap)

end Kept

/-! ## Runs -/

/-- The task has its queues and its free list, or it is gone. -/
def Remembers (s : State α) : Prop := s.tickQueue = true → ∃ l free, Kept s l free

/-- The free list is a list, with no block in it twice. -/
def Listed (s : State α) : Prop := s.tickQueue = true → ∃ free, Chain s.queues.nxt s.free free

/-- What is said of a call: a block that is returned was in no queue and in nobody's hands, and
`rt_qCleanup` frees the dynamic blocks that are free or in a queue of the task, each of them once,
and no others. -/
structure Tidy (r : Record (State α) (Event α)) : Prop where
  initialised : ∀ lnk found b, r.event = .qDynInit lnk found → r.post.value = some b →
    r.pre.queues.hook b = none ∧ r.pre.handed b = false
  cleaned : r.event = .qCleanup → ∃ m, r.post.freed = r.pre.freed ++ m ∧ m.Nodup ∧
    (∀ b ∈ m, r.pre.static b = false) ∧
    ∀ b, b ∈ m ↔ r.pre.heap b = true ∧ (r.pre.handed b = false ∨
      r.pre.queues.hook b = some .tick ∨ r.pre.queues.hook b = some .exec)

variable {s s' : State α} {e : Event α}

omit [Fintype α] [DecidableEq α] in
theorem Remembers.listed (remembers : s.Remembers) : s.Listed := fun lives =>
  have ⟨_, free, kept⟩ := remembers lives
  ⟨free, kept.chain⟩

omit [DecidableEq α] [Fintype α] in
theorem start_remembers : (start : State α).Remembers := fun _ => by
  refine ⟨fun _ => [], [], ⟨.empty, fun w e => by cases e⟩, rfl, fun b => ?_, nofun, nofun, nofun,
    nofun, nofun⟩
  simp [start]

/-- A call of a task that has its tick queue. -/
theorem Kept.served {l : Hook → List α} {free : List α} (k : Kept s l free) (proper : s.Proper e)
    (called : s.serveEvent e = some s') (lives : e ≠ .qCleanup) : ∃ l' free', Kept s' l' free' := by
  cases e with
  | qDynAlloc n found =>
      obtain ⟨free', k', -⟩ := k.allocated called
      exact ⟨l, free', k'⟩
  | qDynInit lnk found =>
      obtain ⟨free', k', -⟩ := k.initialised called
      exact ⟨l, free', k'⟩
  | qDynFree n =>
      obtain ⟨free', k', -⟩ := k.dynFreed called
      exact ⟨l, free', k'⟩
  | qBlkInit b =>
      simp only [serveEvent] at called
      split_ifs at called with known
      cases called
      obtain ⟨heap, out⟩ := not_or.mp known
      exact ⟨l, free, k.blkInit (eq_false_of_ne_true heap) (not_not.mp out)⟩
  | qBlkWait b tic now | qBlkRepeat b tic now =>
      simp only [serveEvent] at called
      split_ifs at called
      obtain ⟨l', k', -⟩ := k.waited proper called
      exact ⟨l', free, k'⟩
  | qBlkCancel b =>
      simp only [serveEvent] at called
      split_ifs at called
      obtain ⟨l', free', k', -⟩ := k.cancelled proper called
      exact ⟨l', free', k'⟩
  | qBlkRelease b =>
      simp only [serveEvent] at called
      split_ifs at called
      obtain ⟨s₁, free', released, k', -⟩ := k.released proper.1 proper.2
      obtain rfl := Option.some.inj (released.symm.trans called)
      exact ⟨_, free', k'⟩
  | adjust now =>
      obtain ⟨s₁, adjusted, k', -⟩ := k.adjusted now
      obtain rfl := Option.some.inj (adjusted.symm.trans called)
      exact ⟨l, free, k'⟩
  | execute =>
      simp only [serveEvent] at called
      split at called
      next => cases called
      next b head =>
        split_ifs at called with waits
        have mem : b ∈ l .tick := List.mem_of_head? ((k.formed.hooks.threaded .tick).head ▸ head)
        obtain ⟨s₁, l', free', completed, k', -⟩ :=
          k.completed ((k.formed.hooks.hook b .tick).mpr mem) waits
        obtain rfl := Option.some.inj (completed.symm.trans called)
        exact ⟨l', free', k'⟩
  | ret now =>
      simp only [serveEvent] at called
      split at called
      next => cases called
      next b rest frames =>
        have popped : Kept { s with frames := rest } l free :=
          k.move ⟨rfl, rfl, rfl, rfl, rfl, rfl, rfl⟩ ⟨k.formed.hooks, k.formed.wait⟩
            (fun _ _ => rfl) fun b h own => .inl (Option.ne_none_iff_exists'.mpr ⟨h, own⟩)
        obtain ⟨l', k', -⟩ := popped.returned called
        exact ⟨l', free, k'⟩
  | qCleanup => exact absurd rfl lives

theorem Remembers.step (remembers : s.Remembers) (proper : s.Proper e)
    (stepped : step e s = some s') : s'.Remembers ∧ Tidy ⟨s, e, s'⟩ := by
  unfold State.step at stepped
  split_ifs at stepped with may
  cases lives : s.tickQueue with
  | false =>
      -- Only two calls can be made, and they do not change that.
      cases e with
      | qDynInit lnk found =>
          obtain rfl := Option.some.inj ((if_pos (by simp [lives])).symm.trans stepped)
          refine ⟨fun again => ?_, ⟨fun _ _ b _ value => ?_, nofun⟩⟩
          · cases lives.symm.trans again
          · cases value
      | qBlkInit b =>
          simp only [serveEvent] at stepped
          split_ifs at stepped
          cases stepped
          refine ⟨fun again => ?_, ⟨nofun, nofun⟩⟩
          cases lives.symm.trans again
      | _ => simp [lives, Event.unbound] at may
  | true =>
      obtain ⟨l, free, k⟩ := remembers lives
      by_cases last : e = .qCleanup
      · subst last
        obtain ⟨m, called, nodup, dynamic, all⟩ := k.cleaned proper
        obtain rfl := Option.some.inj (called.symm.trans stepped)
        refine ⟨nofun, nofun, fun _ => ⟨m, ?_, nodup, dynamic, all⟩⟩
        rw [Kept.rtFree_foldl]
      · refine ⟨fun _ => k.served proper stepped last, fun lnk found b event value => ?_,
          fun event => absurd event last⟩
        subst event
        obtain ⟨-, -, -, new⟩ := k.initialised stepped
        exact new b value

end State

/-- The memory in every run of such calls. -/
theorem memory_kept {s : State α} [Fintype α] {tr : List (Record (State α) (Event α))}
    (run : Run State.step State.Proper .start tr s) : s.Listed ∧ ∀ r ∈ tr, State.Tidy r := by
  have all : s.Remembers ∧ ∀ r ∈ tr, State.Tidy r :=
    run.each State.start_remembers fun remembers proper stepped => remembers.step proper stepped
  exact ⟨all.1.listed, all.2⟩

/-- A block that is free and one that the task waits for are freed at the end. -/
theorem memory_kept_freed : ∃ tr s, Run State.step State.Proper (State.start : State (Fin 2)) tr s ∧
    s.freed = [1, 0] ∧ s.Listed ∧ ∀ r ∈ tr, State.Tidy r := by
  obtain ⟨tr, s, run, test⟩ := Run.of_execute State.step State.Proper (State.start : State (Fin 2))
    [.qDynAlloc 1 [some 0], .qDynInit none none, .qBlkWait 0 10 0, .qDynAlloc 1 [some 1], .qCleanup]
    (fun s => s.freed = [1, 0]) (by decide +kernel)
  exact ⟨tr, s, run, of_decide_eq_true test, memory_kept run⟩

/-- A dynamic block that has been executed is released, and follows itself on the free list. -/
theorem not_listed : ¬∀ tr s, Run State.step (fun _ _ => True) (State.start : State (Fin 1)) tr s →
    s.Listed := by
  intro listed
  obtain ⟨tr, s, run, test⟩ := Run.of_execute State.step (fun _ _ => True)
    (State.start : State (Fin 1))
    [.qDynInit none (some 0), .qBlkWait 0 0 0, .execute, .ret 0, .qBlkRelease 0]
    (fun s => s.tickQueue && s.free == some 0 && s.queues.nxt 0 == some 0) (by decide +kernel)
  simp only [Bool.and_eq_true, beq_iff_eq] at test
  obtain ⟨⟨lives, first⟩, next⟩ := test
  obtain ⟨free, chain⟩ := listed tr s run lives
  cases free with
  | nil => cases first.symm.trans chain
  | cons b rest =>
      obtain rfl : b = 0 := Option.some.inj (chain.1.symm.trans first)
      have again : rest.head? = some 0 := chain.2.head.symm.trans next
      exact (List.nodup_cons.mp chain.nodup).1 (List.mem_of_head? again)

end Rtai.Lxrt.Qblk
