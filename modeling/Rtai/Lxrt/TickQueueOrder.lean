import Rtai.Lxrt.TickQueue

/-!
# The order of the tick queue

The blocks before `TQ->wait` are due, the gaps behind it lead to when the others are due, and
the whole queue is in the order in which it is executed.  Time that goes by, a block put in
and a block taken out each keep this.
-/

namespace Rtai.Lxrt.TickQueue

open Function Rtai.Lib

variable {α : Type} [DecidableEq α] {s : State α} {b cur : α} {gone pend before after : List α}
  {d : Int}

/-! ## Lists -/

theorem dropWhile_append (split : s.hook = gone ++ pend) (unique : s.hook.Nodup) {w : α}
    (head : pend.head? = some w) : s.hook.dropWhile (· ≠ w) = pend := by
  obtain ⟨rest, rfl⟩ : ∃ rest, pend = w :: rest := by
    cases pend with
    | nil => cases head
    | cons b rest =>
        cases head
        exact ⟨rest, rfl⟩
  rw [split] at unique ⊢
  have out : ∀ b ∈ gone, b ≠ w := by
    intro b mem
    exact (List.nodup_append.mp unique).2.2 b mem w (.head _)
  rw [List.dropWhile_append_of_pos (fun b mem => by simpa using out b mem)]
  simp

theorem behind_eq (split : s.hook = before ++ cur :: after) (unique : s.hook.Nodup) :
    s.behind cur = after := by
  rw [State.behind, dropWhile_append split unique rfl, List.tail_cons]

theorem putBefore_append {nxt : α} (out : nxt ∉ before) :
    State.putBefore cur nxt (before ++ nxt :: after) = before ++ cur :: nxt :: after := by
  induction before with
  | nil => exact if_pos rfl
  | cons b before ih =>
      have ⟨other, out⟩ := List.ne_and_not_mem_of_not_mem_cons out
      exact (if_neg other.symm).trans (congrArg (b :: ·) (ih out))

/-! ## The queue -/

/-- `TQ->wait` is the first of the blocks that are not due, which are in the order of their
gaps. -/
structure Split (s : State α) (gone pend : List α) : Prop where
  hook : s.hook = gone ++ pend
  wait : s.wait = pend.head?
  deltas : Deltas s.due s.blkTic s.tic pend
  due : ∀ b ∈ gone, s.due b ≤ s.now
  zero : ∀ b ∈ gone, s.blkTic b = 0
  timed : ∀ b ∈ pend, s.soon b = false

structure Queue (s : State α) : Prop where
  unique : s.hook.Nodup
  split : ∃ gone pend, Split s gone pend
  order : s.hook.Pairwise fun a b => (s.key a).Before (s.key b)
  stamps : ∀ b ∈ s.hook, s.stamp b < s.count
  /-- No block was put in later than now. -/
  since : ∀ b ∈ s.hook, s.due b - s.delay b ≤ s.now
  clock : s.tic ≤ s.now
  tick : ∀ b, s.place b = .tick ↔ b ∈ s.hook

section

variable (h : Split s gone pend) (unique : s.hook.Nodup)
include h unique

theorem Split.pending : s.pending = pend := by
  rw [State.pending, h.wait]
  cases head : pend.head? with
  | none => exact (List.head?_eq_none_iff.mp head).symm
  | some w => exact dropWhile_append h.hook unique head

theorem Split.unique_pend : pend.Nodup := by
  rw [h.hook] at unique
  exact (List.nodup_append.mp unique).2.1

/-- What is before `TQ->wait` and what is not are apart. -/
theorem Split.apart (mem : b ∈ gone) : b ∉ pend := by
  rw [h.hook] at unique
  intro other
  exact (List.nodup_append.mp unique).2.2 b mem b other rfl

end

theorem Key.Before.due_le {a b : Key} (h : a.Before b) (timed : a.soon = false) :
    a.due ≤ b.due := by
  rcases h with ⟨soon, -⟩ | ⟨-, -, less | ⟨same, -⟩⟩
  · rw [timed] at soon
    cases soon
  · exact less.le
  · exact same.le

/-- A block whose time is to come is executed in it. -/
theorem key_due (since : s.due b - s.delay b ≤ s.now) (later : s.now < (s.key b).due) :
    (s.key b).due = s.due b := by
  simp only [State.key] at later ⊢
  omega

/-- Time goes by, and the blocks behind `TQ->wait` are later. -/
structure Adjusted (s : State α) (gone pend : List α) : Prop extends Split s gone pend where
  present : s.tic = s.now
  later : ∀ b ∈ pend, s.now < s.due b ∧ (s.key b).due = s.due b

theorem Queue.adjusted (h : Queue s) : ∃ gone pend, Adjusted s.tqadjust gone pend := by
  obtain ⟨gone, pend, split⟩ := h.split
  obtain ⟨passed, parts, come, zero, head, deltas⟩ :=
    @Deltas.pass _ _ _ _ s.now _ _ split.deltas (split.unique_pend h.unique)
  have same : s.tqadjust = { s with
      tic := s.now
      wait := (Deltas.passed (s.now - s.tic) pend s.blkTic).1.head?
      blkTic := (Deltas.passed (s.now - s.tic) pend s.blkTic).2 } := by
    rw [State.tqadjust, split.pending h.unique]
  generalize left : Deltas.passed (s.now - s.tic) pend s.blkTic = rest at *
  have inside {b : α} (mem : b ∈ rest.1) : b ∈ pend := by
    rw [parts]
    exact List.mem_append_right _ mem
  have order : rest.1.Pairwise fun a b => (s.key a).Before (s.key b) := by
    have whole := h.order
    rw [split.hook, parts] at whole
    exact (List.pairwise_append.mp (List.pairwise_append.mp whole).2.1).2.1
  refine ⟨gone ++ passed, rest.1, ?_⟩
  rw [same]
  refine ⟨⟨?_, rfl, deltas, ?_, ?_, fun b mem => split.timed b (inside mem)⟩, rfl, ?_⟩
  · change s.hook = _
    rw [split.hook, List.append_assoc, ← parts]
  · intro b mem
    cases List.mem_append.mp mem with
    | inl mem => exact split.due b mem
    | inr mem => exact come b mem
  · intro b mem
    cases List.mem_append.mp mem with
    | inl mem =>
        have kept : (Deltas.passed (s.now - s.tic) pend s.blkTic).2 b = s.blkTic b :=
          Deltas.passed_of_notMem (split.apart h.unique mem)
        rw [left] at kept
        exact kept.trans (split.zero b mem)
    | inr mem => exact zero b mem
  · intro b mem
    change s.now < s.due b ∧ (s.key b).due = s.due b
    have since := h.since b (by
      rw [split.hook]
      exact List.mem_append_right _ (inside mem))
    suffices later : s.now < (s.key b).due by
      have same := key_due since later
      exact ⟨same ▸ later, same⟩
    -- the first of them is later than now, and the others not before it
    cases first : rest.1 with
    | nil =>
        rw [first] at mem
        cases mem
    | cons w others =>
        have ahead : s.now < s.due w := head w (by rw [first]; rfl)
        have most : s.due w ≤ (s.key w).due := by
          simp only [State.key]
          omega
        rw [first] at mem order
        cases mem with
        | head => omega
        | tail _ mem =>
            have timed := split.timed w (inside (by rw [first]; exact .head _))
            have before := ((List.pairwise_cons.mp order).1 b mem).due_le timed
            omega

theorem Queue.tqadjust (h : Queue s) : Queue s.tqadjust := by
  obtain ⟨gone, pend, adjusted⟩ := h.adjusted
  exact ⟨h.unique, ⟨gone, pend, adjusted.toSplit⟩, h.order, h.stamps, h.since, le_refl _, h.tick⟩

/-- What the queue does not read may change. -/
theorem Queue.others (h : Queue s) {place : α → Place} (blkRpt : α → Int) (exec : List α)
    (frames : List (Frame α)) (log : List (Entry α)) (removed : List Nat)
    (same : ∀ b, place b = .tick ↔ s.place b = .tick) :
    Queue { s with blkRpt, exec, place, frames, log, removed } := by
  obtain ⟨gone, pend, split⟩ := h.split
  have split : Split { s with blkRpt, exec, place, frames, log, removed } gone pend :=
    ⟨split.hook, split.wait, split.deltas, split.due, split.zero, split.timed⟩
  exact ⟨h.unique, ⟨gone, pend, split⟩, h.order, h.stamps, h.since, h.clock,
    fun b => (same b).trans (h.tick b)⟩

theorem Queue.time (h : Queue s) {t : Int} (passes : s.now ≤ t) :
    Queue { s with now := t } := by
  obtain ⟨gone, pend, split⟩ := h.split
  have split : Split { s with now := t } gone pend :=
    ⟨split.hook, split.wait, split.deltas, fun b mem => (split.due b mem).trans passes, split.zero,
      split.timed⟩
  exact ⟨h.unique, ⟨gone, pend, split⟩, h.order, h.stamps,
    fun b mem => (h.since b mem).trans passes, h.clock.trans passes, h.tick⟩

/-! ## A block is put in -/

theorem key_record_self {cur : α} {soon : Bool} {time delay : Int} :
    (s.record cur soon time delay).key cur = ⟨soon, time + delay - min delay 0, s.count⟩ := by
  simp only [State.key, State.record, update_self]

theorem key_record_of_ne {soon : Bool} {time delay : Int} (other : b ≠ cur) :
    (s.record cur soon time delay).key b = s.key b := by
  simp only [State.key, State.record, update_of_ne other]

/-- A block is executed no earlier than it is due, and no earlier than it has been put in. -/
theorem key_due_le {most : Int} (since : s.due b - s.delay b ≤ most) (due : s.due b ≤ most) :
    (s.key b).due ≤ most := by
  simp only [State.key]
  omega

/-- The last one put in is behind those that are not later. -/
theorem before_last {last : Key} (timed : last.soon = false) (stamp : s.stamp b < last.stamp)
    (due : (s.key b).due ≤ last.due) : (s.key b).Before last := by
  cases soon : s.soon b with
  | true => exact .inl ⟨soon, fun other => by rw [timed] at other; cases other⟩
  | false => exact .inr ⟨soon, timed, (lt_or_eq_of_le due).imp id fun same => ⟨same, stamp⟩⟩

theorem Split.link_hook (h : Split s gone pend) (unique : s.hook.Nodup)
    (parts : pend = before ++ (Deltas.seek d pend s.blkTic).2) :
    (s.link cur d).hook = gone ++ before ++ cur :: (Deltas.seek d pend s.blkTic).2 := by
  simp only [State.link, h.pending unique]
  generalize (Deltas.seek d pend s.blkTic).2 = after at *
  have whole : s.hook = gone ++ before ++ after := by
    rw [h.hook, parts, List.append_assoc]
  cases after with
  | nil => rw [List.head?_nil, whole, List.append_nil]
  | cons nxt after =>
      rw [whole] at unique ⊢
      exact putBefore_append fun mem =>
        (List.nodup_append.mp unique).2.2 nxt mem nxt (.head _) rfl

/-- `TQ->wait` is the new block if it goes before the others and is not due. -/
theorem Adjusted.link_wait (h : Adjusted s gone pend) (parts : pend = before ++ after)
    (come : ∀ b ∈ before, s.due b ≤ s.tic + d) (later : ∀ b ∈ after.head?, s.tic + d < s.due b) :
    (s.link cur d).wait =
      if before = [] ∧ d = 0 then after.head? else (before ++ cur :: after).head? := by
  cases before with
  | cons w before =>
      have due : s.due w = s.tic + s.blkTic w := by
        have deltas := h.deltas
        rw [parts] at deltas
        exact deltas.1
      have reaches : d ≥ s.blkTic w := by
        have := come w (.head _)
        omega
      have wait : s.wait = some w := by
        rw [h.wait, parts]
        rfl
      simp only [State.link, wait, if_pos reaches]
      rw [if_neg (by simp)]
      rfl
  | nil =>
      rw [List.nil_append] at parts
      subst parts
      cases pend with
      | nil =>
          have wait : s.wait = none := h.wait
          simp only [State.link, wait]
          by_cases zero : d = 0
          · simp [zero]
          · simp [zero]
      | cons w after =>
          have wait : s.wait = some w := h.wait
          have short : ¬d ≥ s.blkTic w := by
            have := later w rfl
            have := h.deltas.1
            omega
          simp only [State.link, wait, if_neg short]
          by_cases zero : d = 0
          · simp [zero]
          · simp [zero]

/-- The new block is behind those that are not later and before those that are. -/
theorem Queue.record_order (h : Queue s) (adjusted : Adjusted s gone pend) (new : cur ∉ s.hook)
    (parts : pend = before ++ after) (come : ∀ b ∈ before, s.due b ≤ s.tic + d)
    (later : ∀ b ∈ after.head?, s.tic + d < s.due b) :
    (gone ++ before ++ cur :: after).Pairwise fun a b =>
      ((s.record cur false s.tic d).key a).Before ((s.record cur false s.tic d).key b) := by
  have whole : s.hook = gone ++ before ++ after := by
    rw [adjusted.hook, parts, List.append_assoc]
  have order := h.order
  have stamps := h.stamps
  have since := h.since
  have present := adjusted.present
  rw [whole] at order stamps since new
  have kept {b : α} (mem : b ∈ gone ++ before ++ after) :
      (s.record cur false s.tic d).key b = s.key b := by
    apply key_record_of_ne
    rintro rfl
    exact new mem
  have ⟨front, back, across⟩ := List.pairwise_append.mp order
  refine List.pairwise_append.mpr ⟨?_, List.pairwise_cons.mpr ⟨?_, ?_⟩, ?_⟩
  · refine front.imp_of_mem fun left right before => ?_
    rw [kept (List.mem_append_left _ left), kept (List.mem_append_left _ right)]
    exact before
  · intro b mem
    have inside : b ∈ pend := by
      rw [parts]
      exact List.mem_append_right _ mem
    rw [kept (List.mem_append_right _ mem), key_record_self]
    refine .inr ⟨rfl, adjusted.timed b inside, .inl ?_⟩
    have ⟨future, same⟩ := adjusted.later b inside
    -- the first of them is later than the new one, and the others not before it
    suffices ahead : s.tic + d < s.due b by
      change s.tic + d - min d 0 < (s.key b).due
      omega
    cases after with
    | nil => cases mem
    | cons w after =>
        have first := later w rfl
        have insideHead : w ∈ pend := by
          rw [parts]
          exact List.mem_append_right _ (.head _)
        cases mem with
        | head => exact first
        | tail _ mem =>
            have ordered := ((List.pairwise_cons.mp back).1 b mem).due_le
              (adjusted.timed w insideHead)
            have ⟨_, sameHead⟩ := adjusted.later w insideHead
            omega
  · refine back.imp_of_mem fun left right before => ?_
    rw [kept (List.mem_append_right _ left), kept (List.mem_append_right _ right)]
    exact before
  · intro a left b right
    rw [kept (List.mem_append_left _ left)]
    cases right with
    | tail _ right =>
        rw [kept (List.mem_append_right _ right)]
        exact across a left b right
    | head =>
        rw [key_record_self]
        have inside := List.mem_append_left after left
        refine before_last rfl (stamps a inside) ?_
        cases List.mem_append.mp left with
        | inl left =>
            have most : s.due a ≤ s.now := adjusted.due a left
            have due := key_due_le (since a inside) most
            change (s.key a).due ≤ s.tic + d - min d 0
            omega
        | inr left =>
            have ⟨future, same⟩ := adjusted.later a (by
              rw [parts]
              exact List.mem_append_left _ left)
            have most := come a left
            change (s.key a).due ≤ s.tic + d - min d 0
            omega

theorem Queue.link (h : Queue s) (adjusted : Adjusted s gone pend) (new : cur ∉ s.hook)
    (d : Int) : Queue ((s.link cur d).record cur false s.tic d) ∧
      ((s.link cur d).hook.Perm (cur :: s.hook)) := by
  have newPend : cur ∉ pend := by
    intro mem
    apply new
    rw [adjusted.hook]
    exact List.mem_append_right _ mem
  obtain ⟨before, parts, come, later, deltas⟩ :=
    adjusted.deltas.insert (d := d) (adjusted.unique_pend h.unique) newPend
  have hook : (s.link cur d).hook = gone ++ before ++ cur :: (Deltas.seek d pend s.blkTic).2 :=
    adjusted.link_hook h.unique parts
  have wait : (s.link cur d).wait = if before = [] ∧ d = 0
      then (Deltas.seek d pend s.blkTic).2.head?
      else (before ++ cur :: (Deltas.seek d pend s.blkTic).2).head? :=
    adjusted.link_wait parts come later
  have order := h.record_order adjusted new parts come later
  have gap : (s.link cur d).blkTic =
      update (Deltas.closer (Deltas.seek d pend s.blkTic).1 (Deltas.seek d pend s.blkTic).2
        s.blkTic) cur (Deltas.seek d pend s.blkTic).1 := by
    simp only [State.link, adjusted.pending h.unique]
  generalize Deltas.seek d pend s.blkTic = place at *
  have whole : s.hook = gone ++ before ++ place.2 := by
    rw [adjusted.hook, parts, List.append_assoc]
  have perm : (gone ++ before ++ cur :: place.2).Perm (cur :: s.hook) := by
    rw [whole]
    exact List.perm_middle
  have other {b : α} (mem : b ∈ s.hook) : b ≠ cur := by
    rintro rfl
    exact new mem
  have apart {b : α} (mem : b ∈ gone) : b ≠ cur := by
    apply other
    rw [adjusted.hook]
    exact List.mem_append_left _ mem
  have split : ∃ gone pend, Split ((s.link cur d).record cur false s.tic d) gone pend := by
    have due : ∀ b ∈ gone, update s.due cur (s.tic + d) b ≤ s.now := by
      intro b mem
      rw [update_of_ne (apart mem)]
      exact adjusted.due b mem
    have zero : ∀ b ∈ gone, (s.link cur d).blkTic b = 0 := by
      intro b mem
      have out : b ∉ place.2 := by
        intro other
        apply adjusted.apart h.unique mem
        rw [parts]
        exact List.mem_append_right _ other
      rw [gap, update_of_ne (apart mem), Deltas.closer_of_notMem out]
      exact adjusted.zero b mem
    have timed : ∀ b ∈ before ++ cur :: place.2, update s.soon cur false b = false := by
      intro b mem
      by_cases same : b = cur
      · rw [same, update_self]
      · rw [update_of_ne same]
        apply adjusted.timed b
        rw [parts]
        simpa [same] using mem
    by_cases front : before = [] ∧ d = 0
    · -- it is due, and goes to the blocks before `TQ->wait`
      rw [if_pos front] at wait
      obtain ⟨rfl, rfl⟩ := front
      have first := deltas.1
      rw [update_self] at first
      refine ⟨gone ++ [cur], place.2, ?_, wait, ?_, ?_, ?_, ?_⟩
      · change (s.link cur 0).hook = _
        rw [hook]
        simp
      · have rest := deltas.2
        rw [update_self, ← gap] at rest
        change Deltas (update s.due cur (s.tic + 0)) (s.link cur 0).blkTic s.tic place.2
        rw [Int.add_zero] at rest ⊢
        exact rest
      · intro b mem
        cases List.mem_append.mp mem with
        | inl mem => exact due b mem
        | inr mem =>
            rw [List.mem_singleton.mp mem]
            change update s.due cur (s.tic + 0) cur ≤ s.now
            rw [update_self, Int.add_zero]
            exact h.clock
      · intro b mem
        cases List.mem_append.mp mem with
        | inl mem => exact zero b mem
        | inr mem =>
            rw [List.mem_singleton.mp mem]
            change (s.link cur 0).blkTic cur = 0
            rw [gap]
            omega
      · exact fun b mem => timed b (.tail _ mem)
    · rw [if_neg front] at wait
      refine ⟨gone, before ++ cur :: place.2, ?_, wait, ?_, due, zero, timed⟩
      · exact hook.trans (List.append_assoc ..)
      · change Deltas (update s.due cur (s.tic + d)) (s.link cur d).blkTic s.tic _
        rw [gap]
        exact deltas
  refine ⟨⟨?_, split, ?_, ?_, ?_, h.clock, ?_⟩, ?_⟩
  · change (s.link cur d).hook.Nodup
    rw [hook, perm.nodup_iff]
    exact List.nodup_cons.mpr ⟨new, h.unique⟩
  · change (s.link cur d).hook.Pairwise _
    rw [hook]
    exact order
  · intro b mem
    change b ∈ (s.link cur d).hook at mem
    rw [hook, perm.mem_iff] at mem
    change update s.stamp cur s.count b < s.count + 1
    cases mem with
    | head => rw [update_self]; exact Nat.lt_succ_self _
    | tail _ mem =>
        rw [update_of_ne (other mem)]
        exact Nat.lt_succ_of_lt (h.stamps b mem)
  · intro b mem
    change b ∈ (s.link cur d).hook at mem
    rw [hook, perm.mem_iff] at mem
    change update s.due cur (s.tic + d) b - update s.delay cur d b ≤ s.now
    cases mem with
    | head =>
        rw [update_self, update_self, Int.add_sub_cancel]
        exact h.clock
    | tail _ mem =>
        rw [update_of_ne (other mem), update_of_ne (other mem)]
        exact h.since b mem
  · intro b
    change update s.place cur .tick b = .tick ↔ b ∈ (s.link cur d).hook
    rw [hook, perm.mem_iff, List.mem_cons]
    by_cases same : b = cur
    · simp [same]
    · rw [update_of_ne same, h.tick b]
      simp [same]
  · rw [hook]
    exact perm

theorem Queue.tqinsert (h : Queue s) (new : cur ∉ s.hook) (d : Int) (rpt : Bool) :
    Queue (s.tqinsert cur d rpt) ∧ (s.tqinsert cur d rpt).hook.Perm (cur :: s.hook) := by
  have start := h.others (update s.blkRpt cur (if rpt then d else 0)) s.exec s.frames s.log
    s.removed fun _ => Iff.rfl
  obtain ⟨gone, pend, adjusted⟩ := start.adjusted
  exact start.tqadjust.link adjusted new d

/-! ## A block is taken out -/

theorem Queue.erase (h : Queue s) {wait : Option α} {blkTic : α → Int}
    (split : Split { s with hook := s.hook.erase cur, wait, blkTic } gone pend)
    (place : Place) (out : place ≠ .tick) :
    Queue { s with
      hook := s.hook.erase cur, wait, blkTic, place := update s.place cur place } := by
  have rest : (s.hook.erase cur).Sublist s.hook := List.erase_sublist
  have split : Split { s with
      hook := s.hook.erase cur, wait, blkTic, place := update s.place cur place } gone pend :=
    ⟨split.hook, split.wait, split.deltas, split.due, split.zero, split.timed⟩
  refine ⟨h.unique.sublist rest, ⟨gone, pend, split⟩, h.order.sublist rest,
    fun b mem => h.stamps b (rest.mem mem), fun b mem => h.since b (rest.mem mem), h.clock, ?_⟩
  intro b
  rw [h.unique.mem_erase_iff]
  by_cases same : b = cur
  · simp [same, out]
  · simp only [update_of_ne same, h.tick b]
    simp [same]

theorem erase_gone (h : Split s gone pend) (mem : cur ∈ gone) :
    Split { s with hook := s.hook.erase cur } (gone.erase cur) pend := by
  have rest : (gone.erase cur).Sublist gone := List.erase_sublist
  refine ⟨?_, h.wait, h.deltas, fun b mem => h.due b (rest.mem mem),
    fun b mem => h.zero b (rest.mem mem), h.timed⟩
  change s.hook.erase cur = _
  rw [h.hook, List.erase_append_left _ mem]

theorem unhook_tick (tick : s.place cur = .tick) : s.unhook cur =
    { s with hook := s.hook.erase cur, place := update s.place cur .none } := by
  rw [State.unhook, tick]

section

variable (unique : s.hook.Nodup) (h : Split s gone pend)
include unique h

/-- A block before `TQ->wait` has no gap to give away. -/
theorem tqcancel_gone (mem : cur ∈ gone) : s.tqcancel cur = s := by
  have other : s.wait ≠ some cur := by
    rw [h.wait]
    intro head
    exact h.apart unique mem (List.mem_of_mem_head? head)
  rw [State.tqcancel, if_neg other]
  cases (s.behind cur).head? with
  | none => rfl
  | some n => simp only [h.zero cur mem, Int.add_zero, update_eq_self]

theorem tqcancel_pend (parts : pend = before ++ cur :: after) : s.tqcancel cur = { s with
      blkTic := Deltas.closer (-s.blkTic cur) after s.blkTic
      wait := (before ++ after).head? } := by
  have behind : s.behind cur = after := by
    have whole : s.hook = (gone ++ before) ++ cur :: after := by
      rw [h.hook, parts, List.append_assoc]
    exact behind_eq whole unique
  have wait : (if s.wait = some cur then after.head? else s.wait) = (before ++ after).head? := by
    cases before with
    | nil => rw [h.wait, parts]; exact if_pos rfl
    | cons w before =>
        have other : w ≠ cur := by
          rintro rfl
          have unique := h.unique_pend unique
          rw [parts] at unique
          exact (List.nodup_cons.mp unique).1 (List.mem_append_right _ (.head _))
        rw [h.wait, parts]
        simp [other]
  rw [State.tqcancel, behind, wait]
  cases after with
  | nil => rfl
  | cons n after => simp only [List.head?_cons, Deltas.closer, Int.sub_neg]

theorem erase_pend (parts : pend = before ++ cur :: after) :
    Split { s with
      hook := s.hook.erase cur
      wait := (before ++ after).head?
      blkTic := Deltas.closer (-s.blkTic cur) after s.blkTic } gone (before ++ after) := by
  have uniquePend := h.unique_pend unique
  rw [parts] at uniquePend
  have ⟨_, behind, across⟩ := List.nodup_append.mp uniquePend
  have notBefore : cur ∉ before := fun mem => across cur mem cur (.head _) rfl
  have mem : cur ∈ pend := by
    rw [parts]
    exact List.mem_append_right _ (.head _)
  have notGone : cur ∉ gone := fun other => h.apart unique other mem
  have inside {b : α} (mem : b ∈ before ++ after) : b ∈ pend := by
    rw [parts]
    simp only [List.mem_append, List.mem_cons] at mem ⊢
    exact mem.imp id .inr
  refine ⟨?_, rfl, ?_, h.due, ?_, fun b mem => h.timed b (inside mem)⟩
  · change s.hook.erase cur = _
    rw [h.hook, List.erase_append_right _ notGone, parts, List.erase_append_right _ notBefore,
      List.erase_cons_head]
  · have deltas := h.deltas
    rw [parts] at deltas
    refine deltas.remove behind ?_
    intro b mem other
    exact across b mem b (.tail _ other) rfl
  · intro b mem
    change Deltas.closer (-s.blkTic cur) after s.blkTic b = 0
    rw [Deltas.closer_of_notMem fun other => h.apart unique mem (inside (List.mem_append_right _
      other))]
    exact h.zero b mem

end

/-- The block is taken out of the tick queue. -/
theorem Queue.dequeue (h : Queue s) (mem : cur ∈ s.hook) : Queue ((s.tqcancel cur).unhook cur) := by
  obtain ⟨gone, pend, split⟩ := h.split
  have tick := (h.tick cur).mpr mem
  rw [unhook_tick (s := s.tqcancel cur) tick]
  rw [split.hook] at mem
  cases List.mem_append.mp mem with
  | inl mem =>
      rw [tqcancel_gone h.unique split mem]
      exact h.erase (erase_gone split mem) .none (by decide)
  | inr mem =>
      obtain ⟨before, after, parts⟩ := List.append_of_mem mem
      rw [tqcancel_pend h.unique split parts]
      exact h.erase (erase_pend h.unique split parts) .none (by decide)

/-- A block before `TQ->wait` is taken out as it is. -/
theorem Queue.erase_gone (h : Queue s) (split : Split s gone pend) (mem : cur ∈ gone)
    (place : Place) (out : place ≠ .tick) :
    Queue { s with hook := s.hook.erase cur, place := update s.place cur place } :=
  h.erase (TickQueue.erase_gone split mem) place out

/-- The head of the queue is before `TQ->wait` or is it. -/
theorem Split.head (h : Split s gone pend) (head : s.hook.head? = some b)
    (other : s.wait ≠ some b) : b ∈ gone := by
  rw [h.hook] at head
  cases gone with
  | nil => exact absurd (h.wait.trans head) other
  | cons w gone =>
      cases head
      exact .head _

theorem tqcomplete_eq (tick : s.place cur = .tick) : s.tqcomplete cur = { s with
    hook := s.hook.erase cur
    exec := if s.blkRpt cur = 0 then s.exec else cur :: s.exec
    place := update s.place cur (if s.blkRpt cur = 0 then .none else .exec)
    frames := .executing { block := cur, rpt := s.blkRpt cur } :: s.frames
    log := s.log ++ [s.entry cur] } := by
  have hooked : Place.tick ≠ .none := by decide
  by_cases oneShot : s.blkRpt cur = 0
  · simp only [State.tqcomplete, if_pos oneShot, State.blkRelease, tick, if_pos hooked,
      State.unhook]
  · simp only [State.tqcomplete, if_neg oneShot, State.unhook, tick, update_idem]

theorem Queue.tqcomplete (h : Queue s) (split : Split s gone pend) (mem : cur ∈ gone) :
    Queue (s.tqcomplete cur) := by
  have tick : s.place cur = .tick := by
    rw [h.tick, split.hook]
    exact List.mem_append_left _ mem
  rw [tqcomplete_eq tick]
  refine (h.erase_gone split mem (if s.blkRpt cur = 0 then .none else .exec) ?_).others
    _ _ _ _ _ fun _ => Iff.rfl
  split <;> decide

theorem blkDequeue_place : (s.blkDequeue cur).place cur = .none := by
  cases place : s.place cur with
  | none => simp only [State.blkDequeue, place]
  | tick => simp only [State.blkDequeue, place, State.unhook, State.tqcancel, update_self]
  | exec => simp only [State.blkDequeue, place, State.unhook, update_self]
  | other hook => simp only [State.blkDequeue, place, State.unhook, update_self]

theorem Queue.unhook (h : Queue s) (out : s.place cur ≠ .tick) : Queue (s.unhook cur) := by
  have same (b : α) : update s.place cur .none b = .tick ↔ s.place b = .tick := by
    by_cases same : b = cur
    · simp [same, out]
    · rw [update_of_ne same]
  cases place : s.place cur with
  | tick => exact absurd place out
  | none | other hook =>
      simp only [State.unhook, place]
      exact h.others _ _ _ _ _ same
  | exec =>
      simp only [State.unhook, place]
      exact h.others _ _ _ _ _ same

theorem Queue.blkDequeue (h : Queue s) : Queue (s.blkDequeue cur) := by
  cases place : s.place cur with
  | none =>
      rw [State.blkDequeue, place]
      exact h
  | tick =>
      simp only [State.blkDequeue, place]
      exact (h.dequeue ((h.tick cur).mp place)).others _ _ _ _ _ fun _ => Iff.rfl
  | exec | other hook =>
      have out : s.place cur ≠ .tick := by simp [place]
      simp only [State.blkDequeue, place]
      exact h.unhook out

/-- A block goes to the head of the queue. -/
theorem Queue.soon (h : Queue s) (new : cur ∉ s.hook) (blkRpt : α → Int) :
    Queue ({ s with
      hook := cur :: s.hook
      place := update s.place cur .tick
      blkRpt
      blkTic := update s.blkTic cur 0 }.record cur true s.now 0) := by
  obtain ⟨gone, pend, split⟩ := h.split
  have other {b : α} (mem : b ∈ s.hook) : b ≠ cur := by
    rintro rfl
    exact new mem
  have front {b : α} (mem : b ∈ gone) : b ≠ cur := by
    apply other
    rw [split.hook]
    exact List.mem_append_left _ mem
  have back {b : α} (mem : b ∈ pend) : b ≠ cur := by
    apply other
    rw [split.hook]
    exact List.mem_append_right _ mem
  refine ⟨List.nodup_cons.mpr ⟨new, h.unique⟩, ⟨cur :: gone, pend, ?_⟩, ?_, ?_, ?_, h.clock, ?_⟩
  · refine ⟨congrArg (cur :: ·) split.hook, split.wait, ?_, ?_, ?_, ?_⟩
    · exact split.deltas.congr fun b mem => ⟨update_of_ne (back mem) _ _,
        update_of_ne (back mem) _ _⟩
    · intro b mem
      change update s.due cur (s.now + 0) b ≤ s.now
      cases mem with
      | head => rw [update_self, Int.add_zero]
      | tail _ mem =>
          rw [update_of_ne (front mem)]
          exact split.due b mem
    · intro b mem
      cases mem with
      | head => exact update_self ..
      | tail _ mem => exact (update_of_ne (front mem) _ _).trans (split.zero b mem)
    · intro b mem
      exact (update_of_ne (back mem) _ _).trans (split.timed b mem)
  · refine List.pairwise_cons.mpr ⟨?_, h.order.imp_of_mem ?_⟩
    · intro b mem
      rw [key_record_self]
      refine .inl ⟨rfl, fun _ => ?_⟩
      change update s.stamp cur s.count b < s.count
      rw [update_of_ne (other mem)]
      exact h.stamps b mem
    · intro a b left right before
      rw [key_record_of_ne (other left), key_record_of_ne (other right)]
      exact before
  · intro b mem
    change update s.stamp cur s.count b < s.count + 1
    cases mem with
    | head => rw [update_self]; exact Nat.lt_succ_self _
    | tail _ mem =>
        rw [update_of_ne (other mem)]
        exact Nat.lt_succ_of_lt (h.stamps b mem)
  · intro b mem
    change update s.due cur (s.now + 0) b - update s.delay cur 0 b ≤ s.now
    cases mem with
    | head => simp
    | tail _ mem =>
        rw [update_of_ne (other mem), update_of_ne (other mem)]
        exact h.since b mem
  · intro b
    change update s.place cur .tick b = .tick ↔ b ∈ cur :: s.hook
    rw [List.mem_cons, ← h.tick b]
    by_cases same : b = cur
    · simp [same]
    · simp [same]

end Rtai.Lxrt.TickQueue
