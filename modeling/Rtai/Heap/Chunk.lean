import Rtai.Heap.Memory
import Rtai.Lib.Tiling

/-!
# A chunk

`Laid m chk a ts` says that the headers of the blocks `ts`, from address `a` on, are in
memory: each names its chunk and its size, one in use points to itself and a free one to
the next that is free.  `allocLoop` is then `take`, and what `rt_free` does to a chunk is
`release`; neither changes a cell outside the blocks but the link to their first free
one.
-/

namespace Rtai.Heap

open Function Rtai.Lib

/-- The headers of the blocks from `a` on. -/
def Laid (m : Memory) (chk : Nat) : Nat → List Tile → Prop
  | _, [] => True
  | a, t :: ts =>
      (m a).chkAddr = chk ∧ (m a).size = t.size ∧
        (m a).next = (if t.used then a else firstFree BLKHDR (a + t.span BLKHDR) ts) ∧
        Laid m chk (a + t.span BLKHDR) ts

/-- The blocks fill the region from `a` to `stop`. -/
abbrev Fill (a : Nat) (ts : List Tile) (stop : Nat) : Prop := Tiles BLKHDR MINSIZE a ts stop

/-- What the headers of the blocks take. -/
def weight (ts : List Tile) : UInt32 := UInt32.ofNat (BLKHDR * ts.length)

/-- What is behind `prev` on the free list. -/
def State.link (s : State) (chk prev : Nat) : Nat :=
  if prev = 0 then (s.mem chk).freeList else (s.mem prev).next

variable {m m' : Memory} {s s₁ s' : State} {chk a b prev stop size k v x : Nat} {t u : Tile}
  {ts ts' : List Tile}

theorem blkhdr_pos : 0 < BLKHDR := by decide

theorem lt_span (a : Nat) (t : Tile) : a < a + t.span BLKHDR := by
  have := blkhdr_pos
  simp only [Tile.span]
  omega

theorem weight_cons (t : Tile) (ts : List Tile) :
    weight (t :: ts) = UInt32.ofNat BLKHDR + weight ts := by
  rw [weight, weight, List.length_cons, Nat.mul_succ, Nat.add_comm, UInt32.ofNat_add]

/-- Only the cells of the region matter. -/
theorem Laid.frame (same : ∀ x, a ≤ x → x < stop → m' x = m x) (fill : Fill a ts stop)
    (laid : Laid m chk a ts) : Laid m' chk a ts := by
  induction ts generalizing a with
  | nil => trivial
  | cons t ts ih =>
      have here : m' a = m a :=
        same a (Nat.le_refl a) (Nat.lt_of_lt_of_le (lt_span a t) fill.2.2.le)
      refine ⟨?_, ?_, ?_, ih (fun x low high => same x ?_ high) fill.2.2 laid.2.2.2⟩
      · rw [here]
        exact laid.1
      · rw [here]
        exact laid.2.1
      · rw [here]
        exact laid.2.2.1
      · exact Nat.le_trans (Nat.le_of_lt (lt_span a t)) low

theorem firstFree_range (fill : Fill a ts stop) (some : firstFree BLKHDR a ts ≠ 0) :
    a ≤ firstFree BLKHDR a ts ∧ firstFree BLKHDR a ts < stop := by
  induction ts generalizing a with
  | nil => exact absurd rfl some
  | cons t ts ih =>
      rw [firstFree] at some ⊢
      split at some
      next used =>
        rw [if_pos used]
        have := ih fill.2.2 some
        have := lt_span a t
        omega
      next unused =>
        rw [if_neg unused]
        exact ⟨Nat.le_refl a, Nat.lt_of_lt_of_le (lt_span a t) fill.2.2.le⟩

/-! ## The link to the first free block -/

theorem setLink_self (h : s.link chk prev = v) : s.setLink chk prev v = s := by
  subst h
  unfold State.link State.setLink
  split
  · show { s with mem := update s.mem chk (s.mem chk) } = s
    rw [update_eq_self]
  · show { s with mem := update s.mem prev (s.mem prev) } = s
    rw [update_eq_self]

theorem setLink_mem (chkNe : x ≠ chk) (prevNe : x ≠ prev) :
    (s.setLink chk prev v).mem x = s.mem x := by
  unfold State.setLink
  split
  · exact update_of_ne chkNe _ _
  · exact update_of_ne prevNe _ _

/-- Nothing but the memory and the overhead differs. -/
def SameRest (s s' : State) : Prop :=
  s' = { s with mem := s'.mem, memoryOverhead := s'.memoryOverhead }

theorem SameRest.trans {s₂ : State} (h : SameRest s s₁) (h' : SameRest s₁ s₂) : SameRest s s₂ := by
  unfold SameRest at *
  rw [h', h]

theorem setLink_rest :
    SameRest s (s.setLink chk prev v) ∧
      (s.setLink chk prev v).memoryOverhead = s.memoryOverhead := by
  unfold State.setLink
  split
  · exact ⟨rfl, rfl⟩
  · exact ⟨rfl, rfl⟩

/-- The operation has made the blocks `ts'` of the blocks `ts`, and touched nothing else but
the link to the first free one; of the blocks it touches the headers alone. -/
structure Reshaped (s s' : State) (chk prev a stop : Nat) (ts ts' : List Tile) : Prop where
  laid : Laid s'.mem chk a ts'
  outside : ∀ x, ¬(a ≤ x ∧ x < stop) →
    s'.mem x = (s.setLink chk prev (firstFree BLKHDR a ts')).mem x
  overhead : s'.memoryOverhead - weight ts' = s.memoryOverhead - weight ts
  rest : SameRest s s'
  kept : ∀ x, a ≤ x → x < stop → x ∉ headers BLKHDR a ts' → s'.mem x = s.mem x

/-- What is done behind a block that is not free is done. -/
theorem Reshaped.used (used : t.used = true) (laid : Laid s.mem chk a (t :: ts)) (before : prev < a)
    (chkBefore : chk < a) (h : Reshaped s s' chk prev (a + t.span BLKHDR) stop ts ts') :
    Reshaped s s' chk prev a stop (t :: ts) (t :: ts') := by
  have low := lt_span a t
  have first : firstFree BLKHDR a (t :: ts') = firstFree BLKHDR (a + t.span BLKHDR) ts' := by
    rw [firstFree, if_pos used]
  have here : s'.mem a = s.mem a := by
    rw [h.outside a (by omega), setLink_mem (Nat.ne_of_gt chkBefore) (Nat.ne_of_gt before)]
  refine ⟨⟨?_, ?_, ?_, h.laid⟩, fun x outside => ?_, ?_, h.rest, ?_⟩
  · rw [here]
    exact laid.1
  · rw [here]
    exact laid.2.1
  · rw [here, if_pos used]
    exact laid.2.2.1.trans (if_pos used)
  · rw [first]
    exact h.outside x (by omega)
  · have := h.overhead
    rw [weight_cons, weight_cons]
    grind
  · intro x above below header
    by_cases behind : a + t.span BLKHDR ≤ x
    · exact h.kept x behind below fun mem => header (List.mem_cons_of_mem a mem)
    · rw [h.outside x (by omega), setLink_mem (by omega) (by omega)]

/-- What is done behind a free block is done, with the link in that block. -/
theorem Reshaped.free (free : t.used = false) (laid : Laid s.mem chk a (t :: ts))
    (slot : s.link chk prev = a) (positive : 0 < a) (le : a + t.span BLKHDR ≤ stop)
    (h : Reshaped s s' chk a (a + t.span BLKHDR) stop ts ts') :
    Reshaped s s' chk prev a stop (t :: ts) (t :: ts') := by
  have low := lt_span a t
  have notUsed : ¬t.used = true := by
    rw [free]
    decide
  have first : firstFree BLKHDR a (t :: ts') = a := by
    rw [firstFree, if_neg notUsed]
  have link (v : Nat) : s.setLink chk a v = s.setNext a v := if_neg (Nat.ne_of_gt positive)
  have here : s'.mem a = { s.mem a with next := firstFree BLKHDR (a + t.span BLKHDR) ts' } := by
    rw [h.outside a (by omega), link]
    exact update_self ..
  refine ⟨⟨?_, ?_, ?_, h.laid⟩, fun x outside => ?_, ?_, h.rest, ?_⟩
  · rw [here]
    exact laid.1
  · rw [here]
    exact laid.2.1
  · rw [here, if_neg notUsed]
  · rw [first, setLink_self slot, h.outside x (by omega), link]
    exact update_of_ne (by omega) _ _
  · have := h.overhead
    rw [weight_cons, weight_cons]
    grind
  · intro x above below header
    by_cases behind : a + t.span BLKHDR ≤ x
    · exact h.kept x behind below fun mem => header (List.mem_cons_of_mem a mem)
    · have other : x ≠ a := fun e => header (e ▸ List.mem_cons_self)
      rw [h.outside x (by omega), link]
      exact update_of_ne other _ _

/-! ## Allocation -/

/-- A link is set in one cell of the memory alone. -/
theorem setLink_congr {y : Nat} (same : ∀ z, z ≠ y → s₁.mem z = s.mem z) (chkNe : y ≠ chk)
    (prevNe : y ≠ prev) (xNe : x ≠ y) :
    (s₁.setLink chk prev v).mem x = (s.setLink chk prev v).mem x := by
  unfold State.setLink
  split
  · show update s₁.mem chk _ x = update s.mem chk _ x
    rw [same chk chkNe.symm]
    rcases eq_or_ne x chk with rfl | other
    · rw [update_self, update_self]
    · rw [update_of_ne other, update_of_ne other, same x xNe]
  · show update s₁.mem prev _ x = update s.mem prev _ x
    rw [same prev prevNe.symm]
    rcases eq_or_ne x prev with rfl | other
    · rw [update_self, update_self]
    · rw [update_of_ne other, update_of_ne other, same x xNe]

/-- The last two statements of `takeBlock`. -/
theorem close_mem (s : State) (cur size x : Nat) :
    ((s.setNext cur cur).setSize cur size).mem x =
      if x = cur then { s.mem cur with next := cur, size := size } else s.mem x := by
  show update (update s.mem cur _) cur { update s.mem cur _ cur with size := size } x = _
  rw [update_self]
  split
  next e =>
    subst e
    rw [update_self]
  next other => rw [update_of_ne other, update_of_ne other]

/-- A free block serves a request whole. -/
theorem Reshaped.takeWhole (fill : Fill a (t :: ts) stop) (laid : Laid s.mem chk a (t :: ts))
    (free : t.used = false) (room : size ≤ t.size)
    (small : ¬t.size - size ≥ BLKHDR + MINSIZE) (before : prev < a) (chkBefore : chk < a) :
    Reshaped s (s.takeBlock size chk prev a) chk prev a stop (t :: ts)
      (⟨true, size, t.size - size + t.lost⟩ :: ts) := by
  obtain ⟨chkAddr, tileSize, next, behind⟩ := laid
  rw [free] at next
  have low := lt_span a t
  have inside := fill.2.2.le
  have e : a + Tile.span BLKHDR ⟨true, size, t.size - size + t.lost⟩ = a + t.span BLKHDR := by
    simp only [Tile.span]
    omega
  have does : s.takeBlock size chk prev a =
      ((s.setLink chk prev (s.mem a).next).setNext a a).setSize a size := by
    rw [← tileSize] at small
    simp only [State.takeBlock, if_neg small]
  have here : (s.setLink chk prev (s.mem a).next).mem a = s.mem a :=
    setLink_mem (Nat.ne_of_gt chkBefore) (Nat.ne_of_gt before)
  have first : firstFree BLKHDR a (⟨true, size, t.size - size + t.lost⟩ :: ts) = (s.mem a).next := by
    rw [firstFree, if_pos rfl, e, next]
    rfl
  rw [does]
  refine ⟨⟨?_, ?_, ?_, ?_⟩, fun x outside => ?_, ?_, ?_, ?_⟩
  · rw [close_mem, if_pos rfl, here]
    exact chkAddr
  · rw [close_mem, if_pos rfl]
  · rw [close_mem, if_pos rfl, if_pos rfl]
  · rw [e]
    refine behind.frame (fun x above _ => ?_) fill.2.2
    rw [close_mem, if_neg (by omega), setLink_mem (by omega) (by omega)]
  · rw [close_mem, if_neg (by omega), first]
  · show (s.setLink chk prev (s.mem a).next).memoryOverhead - _ = _
    rw [setLink_rest.2, weight_cons, weight_cons]
  · exact setLink_rest.1.trans rfl
  · intro x above below header
    have other : x ≠ a := fun e => header (e ▸ List.mem_cons_self)
    rw [close_mem, if_neg other, setLink_mem (by omega) (by omega)]

/-- A free block serves a request and leaves a block. -/
theorem Reshaped.takePart (fill : Fill a (t :: ts) stop) (laid : Laid s.mem chk a (t :: ts))
    (free : t.used = false) (large : t.size - size ≥ BLKHDR + MINSIZE)
    (header : (s.mem chk).chkAddr = chk) (before : prev < a) (chkBefore : chk < a) :
    Reshaped s (s.takeBlock size chk prev a) chk prev a stop (t :: ts)
      (⟨true, size, 0⟩ :: ⟨false, t.size - (size + BLKHDR), t.lost⟩ :: ts) := by
  obtain ⟨chkAddr, tileSize, next, behind⟩ := laid
  rw [free] at next
  have low := lt_span a t
  have inside := fill.2.2.le
  have positive := blkhdr_pos
  have e : a + Tile.span BLKHDR ⟨true, size, 0⟩ = a + BLKHDR + size := by
    simp only [Tile.span]
    omega
  have e' : a + BLKHDR + size +
      Tile.span BLKHDR ⟨false, t.size - (size + BLKHDR), t.lost⟩ = a + t.span BLKHDR := by
    simp only [Tile.span]
    omega
  have restHigh : a + BLKHDR + size < a + t.span BLKHDR := by
    simp only [Tile.span]
    omega
  -- the header of the block that is left
  let left : Cell := { s.mem (a + BLKHDR + size) with
    chkAddr := (s.mem chk).chkAddr, next := (s.mem a).next, size := t.size - (size + BLKHDR) }
  let s₁ : State := { s with mem := update s.mem (a + BLKHDR + size) left }.addOverhead
  have does : s.takeBlock size chk prev a =
      ((s₁.setLink chk prev (a + BLKHDR + size)).setNext a a).setSize a size := by
    simp only [State.takeBlock, tileSize, if_pos large]
    rfl
  have same (z : Nat) (other : z ≠ a + BLKHDR + size) : s₁.mem z = s.mem z := update_of_ne other ..
  have there : s₁.mem (a + BLKHDR + size) = left := update_self ..
  have here : (s₁.setLink chk prev (a + BLKHDR + size)).mem a = s.mem a := by
    rw [setLink_mem (Nat.ne_of_gt chkBefore) (Nat.ne_of_gt before), same a (by omega)]
  have leftThere : (s₁.setLink chk prev (a + BLKHDR + size)).mem (a + BLKHDR + size) = left := by
    rw [setLink_mem (by omega) (by omega), there]
  rw [does]
  refine ⟨⟨?_, ?_, ?_, ?_, ?_, ?_, ?_⟩, fun x outside => ?_, ?_, ?_, ?_⟩
  · rw [close_mem, if_pos rfl, here]
    exact chkAddr
  · rw [close_mem, if_pos rfl]
  · rw [close_mem, if_pos rfl, if_pos rfl]
  · rw [e, close_mem, if_neg (by omega), leftThere]
    exact header
  · rw [e, close_mem, if_neg (by omega), leftThere]
  · rw [e, close_mem, if_neg (by omega), leftThere, e']
    exact next
  · rw [e, e']
    refine behind.frame (fun x above _ => ?_) fill.2.2
    rw [close_mem, if_neg (by omega), setLink_mem (by omega) (by omega), same x (by omega)]
  · have first : firstFree BLKHDR a
        (⟨true, size, 0⟩ :: ⟨false, t.size - (size + BLKHDR), t.lost⟩ :: ts) = a + BLKHDR + size := by
      rw [firstFree, if_pos rfl, e]
      rfl
    rw [close_mem, if_neg (by omega), first]
    exact setLink_congr same (by omega) (by omega) (by omega)
  · show (s₁.setLink chk prev (a + BLKHDR + size)).memoryOverhead - _ = _
    rw [setLink_rest.2, weight_cons, weight_cons, weight_cons]
    show s.memoryOverhead + UInt32.ofNat BLKHDR - _ = _
    grind
  · have headed : SameRest s s₁ := rfl
    exact headed.trans (setLink_rest.1.trans rfl)
  · intro x above below header
    rw [headers, headers, e] at header
    have other : x ≠ a := fun e => header (e ▸ List.mem_cons_self)
    have other' : x ≠ a + BLKHDR + size := fun e =>
      header (e ▸ List.mem_cons_of_mem a List.mem_cons_self)
    rw [close_mem, if_neg other, setLink_mem (by omega) (by omega), same x other']

/-- `alloc_in_chk` finds the block that `take` finds, and does with it what `take` does. -/
theorem allocLoop_spec (size prev : Nat) (fill : Fill a ts stop) (laid : Laid s.mem chk a ts)
    (slot : s.link chk prev = firstFree BLKHDR a ts) (positive : 0 < a)
    (header : (s.mem chk).chkAddr = chk) (before : prev < a) (chkBefore : chk < a)
    (enough : ts.length < k) :
    match take BLKHDR MINSIZE size a ts with
    | none => s.allocLoop size chk k prev (firstFree BLKHDR a ts) = some (s, 0)
    | some (b, ts') => ∃ s', s.allocLoop size chk k prev (firstFree BLKHDR a ts) =
        some (s', b + BLKHDR) ∧ Reshaped s s' chk prev a stop ts ts' := by
  induction ts generalizing a prev k with
  | nil =>
      obtain ⟨k, rfl⟩ := Nat.exists_eq_succ_of_ne_zero (Nat.ne_of_gt enough)
      exact if_pos rfl
  | cons t ts ih =>
      obtain ⟨k, rfl⟩ := Nat.exists_eq_succ_of_ne_zero (Nat.ne_of_gt (Nat.zero_lt_of_lt enough))
      have low := lt_span a t
      have shorter : ts.length < k := Nat.lt_of_succ_lt_succ enough
      by_cases used : t.used = true
      · have first : firstFree BLKHDR a (t :: ts) = firstFree BLKHDR (a + t.span BLKHDR) ts := by
          rw [firstFree, if_pos used]
        have other : ¬(t.used = false ∧ size ≤ t.size) := fun h => by
          rw [used] at h
          cases h.1
        have spec := ih (k := k + 1) _ fill.2.2 laid.2.2.2 (slot.trans first)
          (Nat.zero_lt_of_lt low) (Nat.lt_trans before low) (Nat.lt_trans chkBefore low)
          (Nat.lt_succ_of_lt shorter)
        rw [take, if_neg other, first]
        cases found : take BLKHDR MINSIZE size (a + t.span BLKHDR) ts with
        | none =>
            rw [found] at spec
            exact spec
        | some r =>
            rw [found] at spec
            obtain ⟨s', does, reshaped⟩ := spec
            exact ⟨s', does, reshaped.used used laid before chkBefore⟩
      · have free := Bool.eq_false_of_not_eq_true used
        have first : firstFree BLKHDR a (t :: ts) = a := by
          rw [firstFree, if_neg used]
        have next : (s.mem a).next = firstFree BLKHDR (a + t.span BLKHDR) ts :=
          laid.2.2.1.trans (if_neg used)
        rw [take, first, State.allocLoop, if_neg (Nat.ne_of_gt positive), laid.2.1]
        by_cases room : size ≤ t.size
        · rw [if_pos ⟨free, room⟩, if_pos room]
          refine ⟨_, rfl, ?_⟩
          unfold cut
          split
          next large => exact .takePart fill laid free large header before chkBefore
          next small => exact .takeWhole fill laid free room small before chkBefore
        · rw [if_neg fun h => room h.2, if_neg room, next]
          have slot' : s.link chk a = firstFree BLKHDR (a + t.span BLKHDR) ts := by
            rw [State.link, if_neg (Nat.ne_of_gt positive), next]
          have spec := ih (k := k) _ fill.2.2 laid.2.2.2 slot' (Nat.zero_lt_of_lt low) low
            (Nat.lt_trans chkBefore low) shorter
          cases found : take BLKHDR MINSIZE size (a + t.span BLKHDR) ts with
          | none =>
              rw [found] at spec
              exact spec
          | some r =>
              rw [found] at spec
              obtain ⟨s', does, reshaped⟩ := spec
              exact ⟨s', does, reshaped.free free laid (slot.trans first) positive fill.2.2.le⟩

/-! ## Freeing -/

theorem firstFree_join : firstFree BLKHDR a (join BLKHDR ts) = firstFree BLKHDR a ts := by
  rcases ts with _ | ⟨t, _ | ⟨u, ts⟩⟩
  · rfl
  · rfl
  · rw [join]
    split
    next both =>
      rw [firstFree, firstFree, if_neg Bool.false_ne_true, if_neg (by rw [both.1.1]; decide)]
    next => rfl

theorem join_used (used : t.used = true) : join BLKHDR (t :: ts) = t :: ts := by
  rcases ts with _ | ⟨u, ts⟩
  · rfl
  · rw [join, if_neg fun h => by rw [h.1.1] at used; cases used]

/-- The free block at `a` touches a free block exactly if that is what its link is. -/
theorem touches_next (fill : Fill a (t :: ts) stop) (positive : 0 < a) :
    a + BLKHDR + t.size = firstFree BLKHDR (a + t.span BLKHDR) ts ↔
      t.lost = 0 ∧ ∃ u ∈ ts.head?, u.used = false := by
  have e : a + t.span BLKHDR = a + BLKHDR + t.size + t.lost := by
    simp only [Tile.span]
    omega
  constructor
  · intro link
    have some : firstFree BLKHDR (a + t.span BLKHDR) ts ≠ 0 := by omega
    have range := firstFree_range fill.2.2 some
    have lost : t.lost = 0 := by omega
    refine ⟨lost, ?_⟩
    rcases ts with _ | ⟨u, ts⟩
    · exact absurd rfl some
    · refine ⟨u, rfl, Bool.eq_false_of_not_eq_true fun used => ?_⟩
      rw [firstFree, if_pos used] at link some
      have := firstFree_range fill.2.2.2.2 some
      have := lt_span (a + t.span BLKHDR) u
      omega
  · rintro ⟨lost, u, head, free⟩
    rcases ts with _ | ⟨v, ts⟩
    · cases head
    · cases head
      rw [firstFree, if_neg (by rw [free]; decide)]
      omega

/-- `mergeNext` joins a free block with the one behind it. -/
theorem mergeNext_spec (fill : Fill a (t :: ts) stop) (laid : Laid s.mem chk a (t :: ts))
    (free : t.used = false) (positive : 0 < a) :
    Laid (s.mergeNext a).mem chk a (join BLKHDR (t :: ts)) ∧
      (∀ x, x ≠ a → (s.mergeNext a).mem x = s.mem x) ∧
      (s.mergeNext a).memoryOverhead - weight (join BLKHDR (t :: ts)) =
        s.memoryOverhead - weight (t :: ts) ∧
      SameRest s (s.mergeNext a) := by
  have whole := laid
  obtain ⟨chkAddr, tileSize, next, behind⟩ := laid
  rw [free] at next
  have next : (s.mem a).next = firstFree BLKHDR (a + t.span BLKHDR) ts := next
  have low := lt_span a t
  by_cases link : a + BLKHDR + t.size = firstFree BLKHDR (a + t.span BLKHDR) ts
  · obtain ⟨lost, u, head, unused⟩ := (touches_next fill positive).mp link
    rcases ts with _ | ⟨v, ts⟩
    · cases head
    cases head
    obtain ⟨chkAddr', tileSize', next', behind'⟩ := behind
    rw [unused] at next'
    have first : firstFree BLKHDR (a + t.span BLKHDR) (u :: ts) = a + t.span BLKHDR := by
      rw [firstFree, if_neg (by rw [unused]; decide)]
    have joined : join BLKHDR (t :: u :: ts) = ⟨false, t.size + BLKHDR + u.size, u.lost⟩ :: ts :=
      if_pos ⟨⟨free, lost⟩, unused⟩
    have e : a + Tile.span BLKHDR ⟨false, t.size + BLKHDR + u.size, u.lost⟩ =
        a + t.span BLKHDR + u.span BLKHDR := by
      simp only [Tile.span, lost]
      omega
    have does : s.mergeNext a =
        (s.subOverhead.setSize a (t.size + (u.size + BLKHDR))).setNext a
          (firstFree BLKHDR (a + t.span BLKHDR + u.span BLKHDR) ts) := by
      have other : a + t.span BLKHDR ≠ a := Nat.ne_of_gt low
      have kept : (s.subOverhead.setSize a (t.size + (u.size + BLKHDR))).mem
          (a + t.span BLKHDR) = s.mem (a + t.span BLKHDR) := update_of_ne other ..
      rw [first] at next link
      rw [State.mergeNext, if_pos (by rw [tileSize, next]; exact link)]
      simp only [next, tileSize, tileSize', kept]
      rw [next']
      rfl
    have mem (x : Nat) : (s.mergeNext a).mem x = if x = a then
        { s.mem a with
          size := t.size + (u.size + BLKHDR)
          next := firstFree BLKHDR (a + t.span BLKHDR + u.span BLKHDR) ts }
        else s.mem x := by
      rw [does]
      show update (update s.mem a _) a { update s.mem a _ a with next := _ } x = _
      rw [update_self]
      split
      next e =>
        subst e
        rw [update_self]
        rfl
      next other => rw [update_of_ne other, update_of_ne other]
    rw [joined]
    refine ⟨⟨?_, ?_, ?_, ?_⟩, fun x other => ?_, ?_, ?_⟩
    · rw [mem, if_pos rfl]
      exact chkAddr
    · rw [mem, if_pos rfl]
      show t.size + (u.size + BLKHDR) = t.size + BLKHDR + u.size
      omega
    · rw [mem, if_pos rfl, e]
      rfl
    · rw [e]
      have low' := lt_span (a + t.span BLKHDR) u
      refine behind'.frame (fun x above _ => ?_) fill.2.2.2.2
      rw [mem, if_neg (by omega)]
    · rw [mem, if_neg other]
    · rw [does, weight_cons, weight_cons, weight_cons]
      show s.memoryOverhead - UInt32.ofNat BLKHDR - _ = _
      grind
    · rw [does]
      rfl
  · have joined : join BLKHDR (t :: ts) = t :: ts := by
      rcases ts with _ | ⟨u, ts⟩
      · rfl
      · refine if_neg fun both => link ((touches_next fill positive).mpr ?_)
        exact ⟨both.1.2, u, rfl, both.2⟩
    have does : s.mergeNext a = s := by
      rw [State.mergeNext, if_neg]
      rw [tileSize, next]
      exact link
    rw [does, joined]
    exact ⟨whole, fun _ _ => rfl, rfl, rfl⟩

theorem freeLoop_stop {addr cur : Nat} (stop : cur = 0 ∨ addr ≤ cur + BLKHDR) (enough : 0 < k) :
    s.freeLoop addr k prev cur = some (prev, cur) := by
  obtain ⟨k, rfl⟩ := Nat.exists_eq_succ_of_ne_zero (Nat.ne_of_gt enough)
  refine if_neg fun h => ?_
  omega

/-- A block that touches none before it is linked behind it. -/
theorem mergePrev_link (apart : ¬(prev ≠ 0 ∧ prev + BLKHDR + (s.mem prev).size = b)) :
    s.mergePrev chk prev b = ((s.setNext b (s.link chk prev)).setLink chk prev b, b) := by
  rw [State.mergePrev, if_neg apart]
  by_cases none : prev = 0
  · rw [if_neg (not_not.mpr none), State.link, if_pos none, State.setLink, if_pos none]
  · rw [if_pos none, State.link, if_neg none, State.setLink, if_neg none]

/-- The two merges, from what `freeLoop` has found. -/
def State.merge (chk prev blk : Nat) (s : State) : State :=
  (s.mergePrev chk prev blk).1.mergeNext (s.mergePrev chk prev blk).2

/-- The block to free is the first. -/
theorem Reshaped.freeHere (fill : Fill b (t :: ts) stop) (laid : Laid s.mem chk b (t :: ts))
    (used : t.used = true) (slot : s.link chk prev = firstFree BLKHDR b (t :: ts))
    (positive : 0 < b) (before : prev < b) (chkBefore : chk < b)
    (apart : ¬(prev ≠ 0 ∧ prev + BLKHDR + (s.mem prev).size = b)) :
    Reshaped s (s.merge chk prev b) chk prev b stop (t :: ts)
      (release BLKHDR b b (t :: ts)) := by
  have first : s.link chk prev = firstFree BLKHDR (b + t.span BLKHDR) ts := by
    rw [slot, firstFree, if_pos used]
  have low := lt_span b t
  let s₁ := (s.setNext b (s.link chk prev)).setLink chk prev b
  have here : s₁.mem b = { s.mem b with next := s.link chk prev } := by
    show ((s.setNext b (s.link chk prev)).setLink chk prev b).mem b = _
    rw [setLink_mem (Nat.ne_of_gt chkBefore) (Nat.ne_of_gt before)]
    exact update_self ..
  have others (x : Nat) (other : x ≠ b) : s₁.mem x = (s.setLink chk prev b).mem x :=
    setLink_congr (y := b) (fun z hz => update_of_ne hz ..) (Nat.ne_of_gt chkBefore)
      (Nat.ne_of_gt before) other
  have fill' : Fill b ({ t with used := false } :: ts) stop := ⟨fill.1, fun e => (Bool.false_ne_true e).elim, fill.2.2⟩
  have laid' : Laid s₁.mem chk b ({ t with used := false } :: ts) := by
    refine ⟨?_, ?_, ?_, ?_⟩
    · rw [here]
      exact laid.1
    · rw [here]
      exact laid.2.1
    · rw [here]
      exact first
    · refine laid.2.2.2.frame (fun x above _ => ?_) fill.2.2
      have above : b + t.span BLKHDR ≤ x := above
      rw [others x (by omega), setLink_mem (by omega) (by omega)]
  obtain ⟨laid'', outside, overhead, rest⟩ := mergeNext_spec fill' laid' rfl positive
  have released : release BLKHDR b b (t :: ts) = join BLKHDR ({ t with used := false } :: ts) :=
    if_pos rfl
  have does : s.merge chk prev b = s₁.mergeNext b := by
    rw [State.merge, mergePrev_link apart]
  have head : firstFree BLKHDR b (join BLKHDR ({ t with used := false } :: ts)) = b := by
    rw [firstFree_join]
    rfl
  rw [released, does]
  refine ⟨laid'', fun x hx => ?_, ?_, ?_, ?_⟩
  · have inside := fill.2.2.le
    have other : x ≠ b := by
      rintro rfl
      exact hx ⟨Nat.le_refl x, Nat.lt_of_lt_of_le low inside⟩
    rw [outside x other, others x other, head]
  · rw [overhead, weight_cons, weight_cons]
    exact congrArg (· - _) setLink_rest.2
  · have freed : SameRest s (s.setNext b (s.link chk prev)) := rfl
    have linked : SameRest s s₁ := freed.trans setLink_rest.1
    exact linked.trans rest
  · intro x above below header
    have other : x ≠ b := fun e => header (e ▸ mem_headers_join)
    rw [outside x other, others x other, setLink_mem (by omega) (by omega)]

/-- The block to free is the second, and the first is free and touches it. -/
theorem Reshaped.freeBehind (fill : Fill a (t :: u :: ts) stop)
    (laid : Laid s.mem chk a (t :: u :: ts)) (touches : t.touches)
    (used : u.used = true) (slot : s.link chk prev = a) (positive : 0 < a) :
    Reshaped s (s.merge chk a (a + t.span BLKHDR)) chk prev a stop (t :: u :: ts)
      (release BLKHDR (a + t.span BLKHDR) a (t :: u :: ts)) := by
  obtain ⟨free, lost⟩ := touches
  obtain ⟨chkAddr, tileSize, next, chkAddr', tileSize', next', behind⟩ := laid
  rw [free] at next
  have low := lt_span a t
  have low' := lt_span (a + t.span BLKHDR) u
  have inside := fill.2.2.2.2.le
  let merged : Tile := ⟨false, t.size + BLKHDR + u.size, u.lost⟩
  have e : a + merged.span BLKHDR = a + t.span BLKHDR + u.span BLKHDR := by
    simp only [merged, Tile.span, lost]
    omega
  let s₁ := (s.setSize a (t.size + (u.size + BLKHDR))).subOverhead
  have does : s.merge chk a (a + t.span BLKHDR) = s₁.mergeNext a := by
    have link : a ≠ 0 ∧ a + BLKHDR + (s.mem a).size = a + t.span BLKHDR := by
      refine ⟨Nat.ne_of_gt positive, ?_⟩
      rw [tileSize]
      simp only [Tile.span, lost]
      omega
    rw [State.merge, State.mergePrev, if_pos link]
    simp only [tileSize, tileSize']
    rfl
  have mem (x : Nat) : s₁.mem x =
      if x = a then { s.mem a with size := t.size + (u.size + BLKHDR) } else s.mem x := by
    show update s.mem a _ x = _
    split
    next h =>
      subst h
      rw [update_self]
    next other => rw [update_of_ne other]
  have fill' : Fill a (merged :: ts) stop := ⟨fill.1, fun e => (Bool.false_ne_true e).elim, by rw [e]; exact fill.2.2.2.2⟩
  have laid' : Laid s₁.mem chk a (merged :: ts) := by
    refine ⟨?_, ?_, ?_, ?_⟩
    · rw [mem, if_pos rfl]
      exact chkAddr
    · rw [mem, if_pos rfl]
      show t.size + (u.size + BLKHDR) = t.size + BLKHDR + u.size
      omega
    · rw [mem, if_pos rfl, e]
      refine next.trans ?_
      rw [if_neg Bool.false_ne_true, firstFree, if_pos used]
      rfl
    · rw [e]
      refine behind.frame (fun x above _ => ?_) fill.2.2.2.2
      rw [mem, if_neg (by omega)]
  obtain ⟨laid'', outside, overhead, rest⟩ := mergeNext_spec fill' laid' rfl positive
  have released : release BLKHDR (a + t.span BLKHDR) a (t :: u :: ts) =
      join BLKHDR (merged :: ts) := by
    rw [release, if_neg (Nat.ne_of_lt low), release, if_pos rfl]
    exact join_join ⟨free, lost⟩ rfl
  have head : firstFree BLKHDR a (join BLKHDR (merged :: ts)) = a := by
    rw [firstFree_join]
    rfl
  rw [released, does]
  refine ⟨laid'', fun x hx => ?_, ?_, ?_, ?_⟩
  · have other : x ≠ a := by
      rintro rfl
      exact hx ⟨Nat.le_refl x, by omega⟩
    rw [outside x other, mem, if_neg other, head, setLink_self slot]
  · rw [overhead, weight_cons, weight_cons, weight_cons]
    show s.memoryOverhead - UInt32.ofNat BLKHDR - _ = _
    grind
  · have freed : SameRest s s₁ := rfl
    exact freed.trans rest
  · intro x above below header
    have other : x ≠ a := fun e => header (e ▸ mem_headers_join)
    rw [outside x other, mem, if_neg other]

/-- Freeing a block behind the first leaves the first as it is, if they do not touch. -/
theorem release_cons (apart : Apart (t :: ts)) (elsewhere : a ≠ b)
    (far : ¬(t.touches ∧ a + t.span BLKHDR = b)) :
    release BLKHDR b a (t :: ts) = t :: release BLKHDR b (a + t.span BLKHDR) ts := by
  rw [release, if_neg elsewhere]
  by_cases touches : t.touches
  · rcases ts with _ | ⟨u, ts⟩
    · rfl
    · have used : u.used = true := apart.1 touches u rfl
      have next : a + t.span BLKHDR ≠ b := fun e => far ⟨touches, e⟩
      rw [release, if_neg next, join_used used, join,
        if_neg fun h => by rw [used] at h; cases h.2]
  · generalize release BLKHDR b (a + t.span BLKHDR) ts = ts'
    rcases ts' with _ | ⟨u, ts'⟩
    · rfl
    · rw [join, if_neg fun h => touches h.1]

/-- What `rt_free` does to a chunk is `release`. -/
theorem freeLoop_spec (prev b n : Nat) (fill : Fill a ts stop) (apart : Apart ts)
    (laid : Laid s.mem chk a ts) (slot : s.link chk prev = firstFree BLKHDR a ts)
    (positive : 0 < a) (before : prev < a) (chkBefore : chk < a)
    (far : ¬(prev ≠ 0 ∧ prev + BLKHDR + (s.mem prev).size = b)) (enough : ts.length < k)
    (block : (b + BLKHDR, n) ∈ blocks BLKHDR a ts) :
    ∃ prev' cur, s.freeLoop (b + BLKHDR) k prev (firstFree BLKHDR a ts) = some (prev', cur) ∧
      Reshaped s (s.merge chk prev' b) chk prev a stop ts (release BLKHDR b a ts) := by
  induction ts generalizing a prev k with
  | nil => cases block
  | cons t ts ih =>
      obtain ⟨k, rfl⟩ := Nat.exists_eq_succ_of_ne_zero (Nat.ne_of_gt (Nat.zero_lt_of_lt enough))
      have low := lt_span a t
      have shorter : ts.length < k := Nat.lt_of_succ_lt_succ enough
      have range := firstFree_range fill.2.2
      have ge := blocks_ge block
      by_cases used : t.used = true
      · have first : firstFree BLKHDR a (t :: ts) = firstFree BLKHDR (a + t.span BLKHDR) ts := by
          rw [firstFree, if_pos used]
        by_cases here : a = b
        · subst here
          refine ⟨prev, _, freeLoop_stop ?_ (Nat.succ_pos k),
            .freeHere fill laid used slot positive before chkBefore far⟩
          rw [first]
          omega
        · have behind : (b + BLKHDR, n) ∈ blocks BLKHDR (a + t.span BLKHDR) ts := by
            rw [blocks, if_pos used] at block
            refine (List.mem_cons.mp block).resolve_left fun e => here ?_
            exact (Nat.add_right_cancel (congrArg Prod.fst e)).symm
          obtain ⟨prev', cur, loop, reshaped⟩ := ih (k := k + 1) _ fill.2.2 apart.2 laid.2.2.2
            (slot.trans first) (Nat.zero_lt_of_lt low) (Nat.lt_trans before low)
            (Nat.lt_trans chkBefore low) far (Nat.lt_succ_of_lt shorter) behind
          rw [first, release_cons apart here fun h => by rw [h.1.1] at used; cases used]
          exact ⟨prev', cur, loop, reshaped.used used laid before chkBefore⟩
      · have free := Bool.eq_false_of_not_eq_true used
        have first : firstFree BLKHDR a (t :: ts) = a := by
          rw [firstFree, if_neg used]
        have next : (s.mem a).next = firstFree BLKHDR (a + t.span BLKHDR) ts :=
          laid.2.2.1.trans (if_neg used)
        have behind : (b + BLKHDR, n) ∈ blocks BLKHDR (a + t.span BLKHDR) ts := by
          rw [blocks, if_neg used] at block
          exact block
        have ge' := blocks_ge behind
        have goes : s.freeLoop (b + BLKHDR) (k + 1) prev a =
            s.freeLoop (b + BLKHDR) k a (firstFree BLKHDR (a + t.span BLKHDR) ts) := by
          rw [State.freeLoop, if_pos ⟨Nat.ne_of_gt positive, by omega⟩, next]
        rw [first, goes]
        by_cases touching : t.touches ∧ a + t.span BLKHDR = b
        · obtain ⟨touches, rfl⟩ := touching
          rcases ts with _ | ⟨u, ts⟩
          · cases behind
          have used' : u.used = true := apart.1 touches u rfl
          have range' := firstFree_range fill.2.2.2.2
          have low' := lt_span (a + t.span BLKHDR) u
          refine ⟨a, _, freeLoop_stop ?_ (Nat.zero_lt_of_lt shorter),
            .freeBehind fill laid touches used' (slot.trans first) positive⟩
          rw [firstFree, if_pos used']
          omega
        · have slot' : s.link chk a = firstFree BLKHDR (a + t.span BLKHDR) ts := by
            rw [State.link, if_neg (Nat.ne_of_gt positive), next]
          have far' : ¬(a ≠ 0 ∧ a + BLKHDR + (s.mem a).size = b) := by
            rintro ⟨-, e⟩
            rw [laid.2.1] at e
            have span : a + t.span BLKHDR = a + BLKHDR + t.size + t.lost := by
              simp only [Tile.span]
              omega
            exact touching ⟨⟨free, by omega⟩, by omega⟩
          obtain ⟨prev', cur, loop, reshaped⟩ := ih (k := k) _ fill.2.2 apart.2 laid.2.2.2 slot'
            (Nat.zero_lt_of_lt low) low (Nat.lt_trans chkBefore low) far' shorter behind
          rw [release_cons apart (by omega) touching]
          exact ⟨prev', cur, loop,
            reshaped.free free laid (slot.trans first) positive fill.2.2.le⟩

end Rtai.Heap
