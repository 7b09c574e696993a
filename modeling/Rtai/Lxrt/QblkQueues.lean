import Rtai.Lxrt.Qblk
import Rtai.Lxrt.TickQueueOrder
import Mathlib.Algebra.Ring.Nat

/-!
# The queues of the qBlks

Each call on the queues, as pointers, has the effect on the lists of blocks that is documented
for it (`Call.moves`), a block being where its `hook` says.  `TQ->wait` points into the tick
queue, which the calls do not know: a block that is taken out there by `rt_qBlkUnhook`, or by
another call that unhooks it first, may be the one that the task waits for.  Only
`rt_qBlkDequeue` moves `TQ->wait` on before.  `queues_moved` is about the runs in which this
does not happen.
-/

namespace Rtai.Lxrt.Qblk

open Function Rtai.Lib

variable {α : Type} [DecidableEq α]

/-! ## What the calls are to do -/

/-- The calls on the queues. -/
inductive Call (α : Type) where
  | qBlkBefore (cur nxt : α)
  | qBlkAfter (cur prv : α)
  | qBlkAtHead (cur : α) (hook : Hook)
  | qBlkAtTail (cur : α) (hook : Hook)
  | qBlkUnhook (cur : α)
  | qBlkRelease (cur : α)
  | qHookFlush (hook : Hook)
deriving DecidableEq

/-- The queues without the block. -/
def without (cur : α) (l : Hook → List α) : Hook → List α := fun h => (l h).erase cur

/-- `cur` comes behind `prv`. -/
def putAfter (cur prv : α) : List α → List α
  | [] => []
  | b :: rest => if b = prv then b :: cur :: rest else b :: putAfter cur prv rest

/-- The blocks of `m` come before `wait`, or to the end. -/
def putAll (wait : Option α) (m l : List α) : List α :=
  match wait with
  | none => l ++ m
  | some w => l.takeWhile (· ≠ w) ++ (m ++ l.dropWhile (· ≠ w))

/-- The queues after a call. -/
def Call.moves (wait : Option α) (l : Hook → List α) : Call α → Hook → List α
  | .qBlkBefore cur nxt => fun h => TickQueue.State.putBefore cur nxt (without cur l h)
  | .qBlkAfter cur prv => fun h => putAfter cur prv (without cur l h)
  | .qBlkAtHead cur hook => update (without cur l) hook (cur :: without cur l hook)
  | .qBlkAtTail cur hook => update (without cur l) hook (without cur l hook ++ [cur])
  | .qBlkUnhook cur | .qBlkRelease cur => without cur l
  | .qHookFlush hook => update (update l hook []) .tick (putAll wait (l hook) (l .tick))

namespace State

/-- Every hook has its queue, and `TQ->wait` is in the tick queue. -/
structure WellFormed (s : State α) (l : Hook → List α) : Prop where
  hooks : OnHooks s.queues l
  wait : ∀ w, s.wait = some w → w ∈ l .tick

end State

/-! ## Queues -/

namespace Queues

variable {q q' : Queues α} {l : Hook → List α} {cur nxt prv b : α} {h : Hook} {p r : Option α}
  {l₁ l₂ : List α}

omit [DecidableEq α] in
theorem nxt_ne (hooks : OnHooks q l) (own : q.hook cur = some h) : q.nxt cur ≠ some cur := by
  obtain ⟨l₁, l₂, split, -, next⟩ := hooks.neighbours own
  have nodup := (hooks.threaded h).nodup
  intro e
  have mem := List.mem_of_head? (next.symm.trans e)
  rw [split] at nodup
  exact (List.nodup_cons.mp (List.nodup_append.mp nodup).2.1).1 mem

section

variable (hooks : OnHooks q l) (own : q.hook cur = some h)
include hooks own

theorem qBlkUnhook_eq : qBlkUnhook cur q = some (q.drop cur h) := by
  have same : (q.setPrv h (q.nxt cur) (q.prv cur)).prv cur = q.prv cur := by
    cases nxt : q.nxt cur with
    | none => rfl
    | some b => exact update_of_ne (fun e => nxt_ne hooks own (by rw [nxt, e])) _ _
  simp [qBlkUnhook, storePrv, storeNxt, own, Hooked.drop, same]

/-- A block that is in no queue is linked as before. -/
theorem drop_nxt (free : q.hook b = none) : (q.drop cur h).nxt b = q.nxt b := by
  cases prv : q.prv cur with
  | none => simp [Hooked.drop, prv, Hooked.setNxt]
  | some c =>
      have here := hooks.prv_hook own prv
      have other : b ≠ c := by
        rintro rfl
        cases free.symm.trans here
      simp [Hooked.drop, prv, Hooked.setNxt, update_of_ne other]

theorem without_eq : update l h ((l h).erase cur) = without cur l := by
  funext k
  by_cases same : k = h
  · rw [same, update_self]
    rfl
  · rw [update_of_ne same]
    refine (List.erase_of_not_mem fun mem => same ?_).symm
    exact Option.some.inj (((hooks.hook cur k).mpr mem).symm.trans own)

end

theorem without_free (hooks : OnHooks q l) (free : q.hook cur = none) : without cur l = l :=
  funext fun h => List.erase_of_not_mem (hooks.free free h)

/-- The queues when a block has left its own, if it was in any. -/
structure Unhooked (cur : α) (q q' : Queues α) (l : Hook → List α) : Prop where
  hooks : OnHooks q' (without cur l)
  hook : q'.hook = update q.hook cur none
  nxt : ∀ b, q.hook b = none → q'.nxt b = q.nxt b

theorem qBlkUnhook_spec (hooks : OnHooks q l) (own : q.hook cur = some h) :
    ∃ q', qBlkUnhook cur q = some q' ∧ Unhooked cur q q' l := by
  refine ⟨_, qBlkUnhook_eq hooks own, ?_, Hooked.drop_hook, fun b => drop_nxt hooks own⟩
  rw [← without_eq hooks own]
  exact hooks.drop own

theorem unhookIf_spec (hooks : OnHooks q l) (cur : α) :
    ∃ q', unhookIf cur q = some q' ∧ Unhooked cur q q' l := by
  cases own : q.hook cur with
  | none =>
      refine ⟨q, if_neg (by simp [own]), ?_, ?_, fun _ _ => rfl⟩
      · rw [without_free hooks own]
        exact hooks
      · rw [← own, update_eq_self]
  | some h =>
      obtain ⟨q', unhooked, spec⟩ := qBlkUnhook_spec hooks own
      exact ⟨q', (if_pos (by simp [own])).trans unhooked, spec⟩

theorem put_nxt (other : b ≠ cur) (free : q.hook b = none)
    (prev : ∀ c, p = some c → q.hook c = some h) : (q.put cur h p r).nxt b = q.nxt b := by
  cases p with
  | none => simp [Hooked.put, Hooked.setNxt, update_of_ne other]
  | some c =>
      have ne : b ≠ c := by
        rintro rfl
        cases free.symm.trans (prev b rfl)
      simp [Hooked.put, Hooked.setNxt, update_of_ne ne, update_of_ne other]

/-! ### The four ways in -/

section

variable (unhooked : unhookIf cur q = some q')
include unhooked

theorem qBlkBefore_eq (other : nxt ≠ cur) (target : q'.hook nxt = some h) :
    qBlkBefore cur nxt q = some (q'.put cur h (q'.prv nxt) (some nxt)) := by
  simp [qBlkBefore, unhooked, storeNxt, target, Hooked.put, Hooked.setPrv,
    update_of_ne other.symm]

theorem qBlkAfter_eq (other : prv ≠ cur) (target : q'.hook prv = some h) :
    qBlkAfter cur prv q = some (q'.put cur h (some prv) (q'.nxt prv)) := by
  cases next : q'.nxt prv <;>
    simp [qBlkAfter, unhooked, storePrv, target, Hooked.put, Hooked.setPrv, Hooked.setNxt,
      update_of_ne other.symm, next]

theorem qBlkAtHead_eq : qBlkAtHead cur h q = some (q'.put cur h none (q'.head h)) := by
  cases head : q'.head h <;>
    simp [qBlkAtHead, unhooked, Hooked.put, Hooked.setPrv, Hooked.setNxt, head]

theorem qBlkAtTail_eq : qBlkAtTail cur h q = some (q'.put cur h (q'.tail h) none) := by
  cases tail : q'.tail h <;>
    simp [qBlkAtTail, unhooked, Hooked.put, Hooked.setPrv, Hooked.setNxt, tail]

end

/-- The block has come to the queue of `h`. -/
structure Moved (cur : α) (h : Hook) (q q' : Queues α) (l' : Hook → List α) : Prop where
  hooks : OnHooks q' l'
  hook : q'.hook = update q.hook cur (some h)
  nxt : ∀ b, b ≠ cur → q.hook b = none → q'.nxt b = q.nxt b

theorem Unhooked.put (spec : Unhooked cur q q' l) (split : without cur l h = l₁ ++ l₂)
    (prev : p = l₁.getLast?) (next : r = l₂.head?) :
    Moved cur h q (q'.put cur h p r) (update (without cur l) h (l₁ ++ cur :: l₂)) := by
  subst prev next
  have out : q'.hook cur = none := by rw [spec.hook, update_self]
  refine ⟨spec.hooks.put out split, ?_, fun b other free => ?_⟩
  · rw [Hooked.put_hook, spec.hook, update_idem]
  · have free' : q'.hook b = none := by rw [spec.hook, update_of_ne other, free]
    rw [put_nxt other free' fun c last => ?_, spec.nxt b free]
    exact (spec.hooks.hook c h).mpr (by simp [split, List.mem_of_getLast? last])

theorem Unhooked.target (spec : Unhooked cur q q' l) (other : b ≠ cur) (own : q.hook b = some h) :
    q'.hook b = some h := by
  rw [spec.hook, update_of_ne other, own]

theorem putBefore_out : ∀ {m : List α}, nxt ∉ m → TickQueue.State.putBefore cur nxt m = m
  | [], _ => rfl
  | b :: m, out => by
      have ⟨other, out⟩ := List.ne_and_not_mem_of_not_mem_cons out
      rw [TickQueue.State.putBefore, if_neg other.symm, putBefore_out out]

theorem putAfter_out : ∀ {m : List α}, prv ∉ m → putAfter cur prv m = m
  | [], _ => rfl
  | b :: m, out => by
      have ⟨other, out⟩ := List.ne_and_not_mem_of_not_mem_cons out
      rw [putAfter, if_neg other.symm, putAfter_out out]

theorem putAfter_append {before after : List α} (out : prv ∉ before) :
    putAfter cur prv (before ++ prv :: after) = before ++ prv :: cur :: after := by
  induction before with
  | nil => exact if_pos rfl
  | cons b before ih =>
      have ⟨other, out⟩ := List.ne_and_not_mem_of_not_mem_cons out
      exact (if_neg other.symm).trans (congrArg (b :: ·) (ih out))

omit [DecidableEq α] in
theorem out_before {q : Queues α} (hooks : OnHooks q l) (split : l h = l₁ ++ b :: l₂) : b ∉ l₁ := by
  have nodup := (hooks.threaded h).nodup
  rw [split] at nodup
  exact fun mem => (List.nodup_append.mp nodup).2.2 b mem b (.head _) rfl

omit [DecidableEq α] in
/-- A change of the list that has the block. -/
theorem moves_eq {q : Queues α} {f : List α → List α} {m : List α} (hooks : OnHooks q l)
    (own : q.hook b = some h) (here : f (l h) = m) (others : ∀ m, b ∉ m → f m = m) :
    update l h m = fun k => f (l k) := by
  funext k
  by_cases same : k = h
  · rw [same, update_self, here]
  · rw [update_of_ne same]
    refine (others (l k) fun mem => same ?_).symm
    exact Option.some.inj (((hooks.hook b k).mpr mem).symm.trans own)

theorem qBlkBefore_spec (hooks : OnHooks q l) (other : nxt ≠ cur) (target : q.hook nxt = some h) :
    ∃ q', qBlkBefore cur nxt q = some q' ∧
      Moved cur h q q' fun k => TickQueue.State.putBefore cur nxt (without cur l k) := by
  obtain ⟨q', unhooked, spec⟩ := unhookIf_spec hooks cur
  have target' := spec.target other target
  obtain ⟨l₁, l₂, split, prev, -⟩ := spec.hooks.neighbours target'
  refine ⟨_, qBlkBefore_eq unhooked other target', ?_⟩
  have moved := spec.put split prev (r := some nxt) rfl
  rwa [moves_eq spec.hooks target' ?_ fun m => putBefore_out] at moved
  rw [split, TickQueue.putBefore_append (out_before spec.hooks split)]

theorem qBlkAfter_spec (hooks : OnHooks q l) (other : prv ≠ cur) (target : q.hook prv = some h) :
    ∃ q', qBlkAfter cur prv q = some q' ∧
      Moved cur h q q' fun k => putAfter cur prv (without cur l k) := by
  obtain ⟨q', unhooked, spec⟩ := unhookIf_spec hooks cur
  have target' := spec.target other target
  obtain ⟨l₁, l₂, split, -, next⟩ := spec.hooks.neighbours target'
  refine ⟨_, qBlkAfter_eq unhooked other target', ?_⟩
  have apart : without cur l h = (l₁ ++ [prv]) ++ l₂ := by simp [split]
  have moved := spec.put apart (p := some prv) List.getLast?_concat.symm next
  rwa [moves_eq spec.hooks target' ?_ fun m => putAfter_out] at moved
  rw [split, putAfter_append (out_before spec.hooks split)]
  simp

theorem qBlkAtHead_spec (hooks : OnHooks q l) (cur : α) : ∃ q', qBlkAtHead cur h q = some q' ∧
    Moved cur h q q' (update (without cur l) h (cur :: without cur l h)) := by
  obtain ⟨q', unhooked, spec⟩ := unhookIf_spec hooks cur
  refine ⟨_, qBlkAtHead_eq unhooked, ?_⟩
  exact spec.put (List.nil_append _).symm rfl (spec.hooks.threaded h).head

theorem qBlkAtTail_spec (hooks : OnHooks q l) (cur : α) : ∃ q', qBlkAtTail cur h q = some q' ∧
    Moved cur h q q' (update (without cur l) h (without cur l h ++ [cur])) := by
  obtain ⟨q', unhooked, spec⟩ := unhookIf_spec hooks cur
  refine ⟨_, qBlkAtTail_eq unhooked, ?_⟩
  exact spec.put (List.append_nil _).symm (spec.hooks.threaded h).tail rfl

/-! ### A whole queue -/

variable {g : Hook} {first last : α} {wait : Option α}

theorem moveToTick_eq (head : q.head g = some first) (tail : q.tail g = some last)
    (other : wait ≠ some first) :
    State.moveToTick g first last wait
        { q with hook := fun b => if q.hook b = some g then some .tick else q.hook b } =
      q.flush g .tick wait := by
  cases wait with
  | none =>
      simp [State.moveToTick, Hooked.flush, Hooked.before, Hooked.setNxt, Hooked.setPrv, head, tail]
  | some w =>
      have ne : first ≠ w := fun e => other (congrArg some e.symm)
      simp [State.moveToTick, Hooked.flush, Hooked.before, Hooked.setNxt, Hooked.setPrv, head,
        tail, update_of_ne ne]

end Queues

theorem dropWhile_head {w : α} : ∀ {l : List α}, w ∈ l → (l.dropWhile (· ≠ w)).head? = some w
  | b :: l, mem => by
      by_cases self : b = w
      · simp [self]
      · rw [List.dropWhile_cons_of_pos (by simpa using self)]
        exact dropWhile_head ((List.mem_cons.mp mem).resolve_left (Ne.symm self))

/-- A place in the tick queue. -/
theorem putAll_split {wait : Option α} {l : List α} (here : ∀ w, wait = some w → w ∈ l) :
    ∃ l₁ l₂, l = l₁ ++ l₂ ∧ l₂.head? = wait ∧ ∀ m, putAll wait m l = l₁ ++ (m ++ l₂) := by
  cases wait with
  | none => exact ⟨l, [], by simp, rfl, fun m => by simp [putAll]⟩
  | some w =>
      exact ⟨l.takeWhile (· ≠ w), l.dropWhile (· ≠ w), by simp, dropWhile_head (here w rfl),
        fun m => rfl⟩

namespace State

variable {s s' : State α} {l : Hook → List α} {cur : α} {g : Hook}

theorem toTick_foldl (m : List α) (s : State α) : m.foldl toTick s = { s with
    blkTic := fun b => if b ∈ m then 0 else s.blkTic b
    blkRpt := fun b => if b ∈ m then 0 else s.blkRpt b
    queues := { s.queues with
      hook := fun b => if b ∈ m then some .tick else s.queues.hook b } } := by
  induction m generalizing s with
  | nil => simp
  | cons a m ih =>
      rw [List.foldl_cons, ih]
      have at_head {β : Type} (f : α → β) (v : β) : (fun b => if b ∈ m then v else update f a v b) =
          fun b => if b ∈ a :: m then v else f b := by
        funext b
        by_cases self : b = a
        · simp [self]
        · simp [self]
      simp only [toTick, at_head]

variable [Fintype α]

theorem WellFormed.flush (wf : s.WellFormed l) (other : g ≠ .tick) :
    ∃ s', s.qHookFlush g = some s' ∧
      s'.WellFormed (update (update l g []) .tick (putAll s.wait (l g) (l .tick))) := by
  have threaded := wf.hooks.threaded g
  obtain ⟨l₁, l₂, split, wait, all⟩ := putAll_split wf.wait
  cases queue : l g with
  | nil =>
      have head : s.queues.head g = none := by rw [threaded.head, queue]; rfl
      refine ⟨s, by rw [qHookFlush, head], ?_⟩
      have same : update (update l g []) .tick (putAll s.wait [] (l .tick)) = l := by
        rw [all, List.nil_append, ← split, ← queue, update_eq_self, update_eq_self]
      rw [same]
      exact wf
  | cons first rest =>
      have filled : l g ≠ [] := by simp [queue]
      have head : s.queues.head g = some first := by rw [threaded.head, queue]; rfl
      obtain ⟨m, last, rear⟩ := (l g).eq_nil_or_concat.resolve_left filled
      have tail : s.queues.tail g = some last := by
        rw [threaded.tail, rear, List.concat_eq_append, List.getLast?_concat]
      have chain := wf.hooks.chain g
      rw [head, queue] at chain
      have short : rest.length < fuel α := Nat.lt_succ_of_le
        ((Nat.le_succ _).trans chain.length_le)
      have looped : follow s.queues.nxt toTick (fuel α) first (s.toTick first) =
          some ((l g).foldl toTick s) := by
        rw [(listed_iff.mpr chain.2).follow short, queue, List.foldl_cons]
      have hook : (fun b => if b ∈ l g then some Hook.tick else s.queues.hook b) =
          fun b => if s.queues.hook b = some g then some .tick else s.queues.hook b :=
        funext fun b => if_congr (wf.hooks.hook b g).symm rfl rfl
      have apart : s.wait ≠ some first := by
        intro e
        have here := (wf.hooks.hook first .tick).mpr (wf.wait first e)
        have own := (wf.hooks.hook first g).mpr (by simp [queue])
        exact other (Option.some.inj (own.symm.trans here))
      rw [toTick_foldl, hook] at looped
      refine ⟨_, by rw [qHookFlush, head]; simp only [looped, tail, Option.bind_eq_bind,
        Option.bind_some]; rfl, ⟨?_, fun w e => ?_⟩⟩
      · have flushed := wf.hooks.flush other filled split
        rw [wait] at flushed
        rw [← queue, all]
        simpa only [Queues.moveToTick_eq head tail apart] using flushed
      · have mem := wf.wait w e
        rw [← queue, all, update_self]
        rw [split] at mem
        simpa using (List.mem_append.mp mem).imp_right .inr

end State

/-! ## Runs -/

/-- The block that is moved is not the one it is moved to, and the hook that is flushed is not
that of the tick queue. -/
def Call.Allowed : Call α → Prop
  | .qBlkBefore cur nxt => nxt ≠ cur
  | .qBlkAfter cur prv => prv ≠ cur
  | .qHookFlush hook => hook ≠ .tick
  | _ => True

instance (e : Call α) : Decidable e.Allowed := by
  cases e <;> simp only [Call.Allowed] <;> infer_instance

namespace State

/-- The block is in a queue where the call is about its place there, and `TQ->wait` is not
taken out of the tick queue. -/
def Spares (s : State α) : Call α → Prop
  | .qBlkBefore cur b | .qBlkAfter cur b =>
      s.queues.hook b ≠ none ∧ (s.wait = some cur → s.queues.hook b = some .tick)
  | .qBlkAtHead cur hook | .qBlkAtTail cur hook => s.wait = some cur → hook = .tick
  | .qBlkUnhook cur => s.queues.hook cur ≠ none ∧ s.wait ≠ some cur
  | .qBlkRelease cur => s.wait ≠ some cur
  | .qHookFlush _ => True

instance (s : State α) (e : Call α) : Decidable (s.Spares e) := by
  cases e <;> simp only [Spares] <;> infer_instance

variable {s s' : State α} {l : Hook → List α} {cur : α} {g h : Hook}

omit [DecidableEq α] in
theorem run_eq {f : Queues α → Option (Queues α)} {q : Queues α} (e : f s.queues = some q) :
    s.run f = some { s with queues := q } := by rw [run, e]; rfl

variable (wf : s.WellFormed l)
include wf

/-- A block has been moved, and `TQ->wait` is in the tick queue still. -/
theorem WellFormed.moved {q : Queues α} {l' : Hook → List α}
    (moved : Queues.Moved cur h s.queues q l') (keeps : s.wait = some cur → h = .tick) :
    WellFormed { s with queues := q } l' := by
  refine ⟨moved.hooks, fun w e => (moved.hooks.hook w .tick).mp ?_⟩
  rw [moved.hook]
  by_cases self : w = cur
  · rw [self, update_self, keeps (self ▸ e)]
  · rw [update_of_ne self]
    exact (wf.hooks.hook w .tick).mpr (wf.wait w e)

theorem WellFormed.unhooked {q : Queues α} (unhooked : Queues.Unhooked cur s.queues q l)
    (other : s.wait ≠ some cur) : WellFormed { s with queues := q } (without cur l) := by
  refine ⟨unhooked.hooks, fun w e => (unhooked.hooks.hook w .tick).mp ?_⟩
  have ne : w ≠ cur := by
    rintro rfl
    exact other e
  rw [unhooked.hook, update_of_ne ne]
  exact (wf.hooks.hook w .tick).mpr (wf.wait w e)

/-- A block that is in no queue is linked to the free blocks. -/
theorem WellFormed.pushFree (free : s.queues.hook cur = none) : (s.pushFree cur).WellFormed l := by
  refine ⟨wf.hooks.frame rfl rfl rfl (fun b h own => update_of_ne ?_ _ _) fun _ _ _ => rfl, wf.wait⟩
  rintro rfl
  cases free.symm.trans own

theorem WellFormed.release (other : s.wait ≠ some cur) :
    ∃ s', s.qBlkRelease cur = some s' ∧ s'.WellFormed (without cur l) := by
  obtain ⟨q, unhooked, spec⟩ := Queues.unhookIf_spec wf.hooks cur
  have wf' := wf.unhooked spec other
  have free : q.hook cur = none := by rw [spec.hook, update_self]
  have pushed := wf'.pushFree free
  rw [qBlkRelease, run_eq unhooked]
  simp only [Option.bind_eq_bind, Option.bind_some]
  split
  · exact ⟨_, rfl, wf'⟩
  · exact ⟨_, rfl, ⟨pushed.hooks, pushed.wait⟩⟩
  · exact ⟨_, rfl, ⟨pushed.hooks, pushed.wait⟩⟩

variable [Fintype α]

def serve : Call α → State α → Option (State α)
  | .qBlkBefore cur nxt, s => s.run (Queues.qBlkBefore cur nxt)
  | .qBlkAfter cur prv, s => s.run (Queues.qBlkAfter cur prv)
  | .qBlkAtHead cur hook, s => s.run (Queues.qBlkAtHead cur hook)
  | .qBlkAtTail cur hook, s => s.run (Queues.qBlkAtTail cur hook)
  | .qBlkUnhook cur, s => s.run (Queues.qBlkUnhook cur)
  | .qBlkRelease cur, s => s.qBlkRelease cur
  | .qHookFlush hook, s => s.qHookFlush hook

def call (e : Call α) (s : State α) : Option (State α) := if e.Allowed then s.serve e else none

/-- A call does what it is to do. -/
theorem WellFormed.call {e : Call α} (allowed : e.Allowed) (spares : s.Spares e) :
    ∃ s', s.call e = some s' ∧ s'.WellFormed (e.moves s.wait l) := by
  rw [State.call, if_pos allowed]
  cases e with
  | qBlkBefore cur nxt =>
      obtain ⟨h, target⟩ := Option.ne_none_iff_exists'.mp spares.1
      obtain ⟨q, called, moved⟩ := Queues.qBlkBefore_spec wf.hooks allowed target
      refine ⟨_, run_eq called, wf.moved moved fun e => ?_⟩
      exact Option.some.inj (target.symm.trans (spares.2 e))
  | qBlkAfter cur prv =>
      obtain ⟨h, target⟩ := Option.ne_none_iff_exists'.mp spares.1
      obtain ⟨q, called, moved⟩ := Queues.qBlkAfter_spec wf.hooks allowed target
      refine ⟨_, run_eq called, wf.moved moved fun e => ?_⟩
      exact Option.some.inj (target.symm.trans (spares.2 e))
  | qBlkAtHead cur hook =>
      obtain ⟨q, called, moved⟩ := Queues.qBlkAtHead_spec wf.hooks cur
      exact ⟨_, run_eq called, wf.moved moved spares⟩
  | qBlkAtTail cur hook =>
      obtain ⟨q, called, moved⟩ := Queues.qBlkAtTail_spec wf.hooks cur
      exact ⟨_, run_eq called, wf.moved moved spares⟩
  | qBlkUnhook cur =>
      obtain ⟨h, own⟩ := Option.ne_none_iff_exists'.mp spares.1
      obtain ⟨q, called, unhooked⟩ := Queues.qBlkUnhook_spec wf.hooks own
      exact ⟨_, run_eq called, wf.unhooked unhooked spares.2⟩
  | qBlkRelease cur => exact wf.release spares
  | qHookFlush hook => exact wf.flush allowed

end State

/-- In the runs that spare `TQ->wait` every state has its queues, every call changes them as
it is to, and none fails. -/
theorem queues_moved {s₀ s : State α} {l₀ : Hook → List α} [Fintype α]
    {tr : List (Record (State α) (Call α))} (wf : s₀.WellFormed l₀)
    (run : Run State.call State.Spares s₀ tr s) :
    (∃ l, s.WellFormed l) ∧
      (∀ r ∈ tr, ∀ l, r.pre.WellFormed l → r.post.WellFormed (r.event.moves r.pre.wait l)) ∧
      ∀ e : Call α, e.Allowed → s.Spares e → (s.call e).isSome = true := by
  have step {s s' : State α} {l : Hook → List α} {e : Call α} (wf : s.WellFormed l)
      (spares : s.Spares e) (called : s.call e = some s') : s'.WellFormed (e.moves s.wait l) := by
    have allowed : e.Allowed := by
      by_contra not
      rw [State.call, if_neg not] at called
      cases called
    obtain ⟨s₁, called₁, wf₁⟩ := wf.call allowed spares
    cases called.symm.trans called₁
    exact wf₁
  have formed : ∃ l, s.WellFormed l :=
    run.invariant (P := fun s => ∃ l, s.WellFormed l) ⟨l₀, wf⟩
      fun ⟨l, wf⟩ spares called => ⟨_, step wf spares called⟩
  refine ⟨formed, fun r mem l wf => ?_, fun e allowed spares => ?_⟩
  · obtain ⟨before, behind, here⟩ := List.append_of_mem mem
    obtain ⟨-, spares, called⟩ := run.before here
    exact step wf spares called
  · obtain ⟨l, wf⟩ := formed
    obtain ⟨s', called, -⟩ := wf.call allowed spares
    rw [called]
    rfl

/-! ## `TQ->wait` is unhooked -/

local instance someBlocks : NeZero 3 := ⟨by decide⟩

/-- Two blocks in the tick queue, the second of which is not due. -/
def waiting : State (Fin 3) :=
  { State.start with
    queues := (Hooked.empty.put 0 .tick none none).put 1 .tick (some 0) none
    wait := some 1 }

theorem waiting_formed : ∃ l, waiting.WellFormed l := by
  have none : (fun _ => [] : Hook → List (Fin 3)) .tick = [] ++ [] := rfl
  have one : OnHooks _ (update (fun _ => []) Hook.tick [(0 : Fin 3)]) := OnHooks.empty.put rfl none
  have first : update (fun _ => []) Hook.tick [(0 : Fin 3)] .tick = [0] ++ [] := rfl
  have two := one.put (a := 1) rfl first
  exact ⟨_, two, fun w e => by cases e; decide⟩

theorem queues_moved_four : ∃ tr s, Run State.call State.Spares waiting tr s ∧
    (s.queues.head .tick = some 2 ∧ s.queues.nxt 2 = some 0 ∧ s.queues.nxt 0 = some 1) ∧
    ∃ l, s.WellFormed l := by
  obtain ⟨l, wf⟩ := waiting_formed
  have ⟨tr, s, run, test⟩ := Run.of_execute State.call State.Spares waiting
    [.qBlkAtTail 2 (.other 0), .qBlkBefore 2 1, .qBlkAtHead 0 (.other 0), .qHookFlush (.other 0)]
    (fun s => s.queues.head .tick == some 2 && s.queues.nxt 2 == some 0 &&
      s.queues.nxt 0 == some 1) (by decide +kernel)
  simp only [Bool.and_eq_true, beq_iff_eq, and_assoc] at test
  exact ⟨tr, s, run, test, (queues_moved wf run).1⟩

/-- The block that the task waits for is in no queue. -/
theorem not_formed_unhooked : (∃ l, waiting.WellFormed l) ∧
    ¬∀ tr s, Run State.call (fun _ _ => True) waiting tr s → ∃ l, s.WellFormed l := by
  refine ⟨waiting_formed, fun formed => ?_⟩
  have ⟨tr, s, run, test⟩ := Run.of_execute State.call (fun _ _ => True) waiting
    [.qBlkUnhook 1] (fun s => s.wait == some 1 && s.queues.hook 1 == none) (by decide +kernel)
  simp only [Bool.and_eq_true, beq_iff_eq] at test
  obtain ⟨wait, out⟩ := test
  obtain ⟨l, wf⟩ := formed tr s run
  exact wf.hooks.free out .tick (wf.wait 1 wait)

end Rtai.Lxrt.Qblk
