import Rtai.Heap.Chunk
import Mathlib.Data.List.Nodup
import Mathlib.Data.List.Range

/-!
# The chunk list

`State.Holds p s cs` says that the chunks `cs` are on `chk_list`, each laid out in memory
as its blocks say, and that the statistics are theirs.  `rt_malloc` serves a request
from one chunk as `take` does, `rt_free` releases the block in its chunk, a new chunk comes
last, and the chunk that is given back is one free block.
-/

namespace Rtai.Heap

open Function Rtai.Lib

variable {p : Params} {m m' : Memory} {s s' : State} {a b k n q size : Nat} {l zs : List Nat}

/-! ## Linked headers -/

/-- The headers at `l`, each linked to the next, are what is reached from `a`. -/
def Chain (m : Memory) : Nat → List Nat → Prop
  | a, [] => a = 0
  | a, c :: cs => a = c ∧ c ≠ 0 ∧ Chain m (m c).next cs

theorem Chain.frame (same : ∀ c ∈ l, (m' c).next = (m c).next) (h : Chain m a l) :
    Chain m' a l := by
  induction l generalizing a with
  | nil => exact h
  | cons c cs ih =>
      obtain ⟨here, some, rest⟩ := h
      refine ⟨here, some, ?_⟩
      rw [same c List.mem_cons_self]
      exact ih (fun d hd => same d (List.mem_cons_of_mem c hd)) rest

/-- What is behind a header is replaced. -/
theorem Chain.behind {xs ys : List Nat} {c : Nat} (same : ∀ x ∈ xs, (m' x).next = (m x).next)
    (h : Chain m a (xs ++ c :: zs)) (rest : Chain m' (m' c).next ys) :
    Chain m' a (xs ++ c :: ys) := by
  induction xs generalizing a with
  | nil => exact ⟨h.1, h.2.1, rest⟩
  | cons x xs ih =>
      refine ⟨h.1, h.2.1, ?_⟩
      rw [same x List.mem_cons_self]
      exact ih (fun d hd => same d (List.mem_cons_of_mem x hd)) h.2.2

theorem Chain.rest {xs : List Nat} {c : Nat} (h : Chain m a (xs ++ c :: zs)) :
    Chain m (m c).next zs := by
  induction xs generalizing a with
  | nil => exact h.2.2
  | cons x xs ih => exact ih h.2.2

theorem Chain.empty (h : Chain m a l) : a = 0 ↔ l = [] := by
  rcases l with _ | ⟨c, cs⟩
  · exact ⟨fun _ => rfl, fun _ => h⟩
  · obtain ⟨rfl, some, -⟩ := h
    exact ⟨fun none => absurd none some, nofun⟩

theorem Chain.lastChunk {xs : List Nat} {c : Nat} (h : Chain s.mem a (xs ++ [c]))
    (enough : xs.length < k) : s.lastChunk k a = some c := by
  induction xs generalizing a k with
  | nil =>
      obtain ⟨k, rfl⟩ := Nat.exists_eq_succ_of_ne_zero (Nat.ne_of_gt enough)
      obtain ⟨rfl, -, last⟩ := h
      exact if_neg fun some => some last
  | cons x xs ih =>
      obtain ⟨k, rfl⟩ := Nat.exists_eq_succ_of_ne_zero (Nat.ne_of_gt (Nat.zero_lt_of_lt enough))
      obtain ⟨rfl, -, rest⟩ := h
      have some : (s.mem a).next ≠ 0 := by
        rcases xs with _ | ⟨y, ys⟩
        · rw [rest.1]
          exact rest.2.1
        · rw [rest.1]
          exact rest.2.1
      rw [State.lastChunk, if_pos some]
      exact ih rest (Nat.lt_of_succ_lt_succ enough)

/-! ## Chunks -/

/-- A chunk and its blocks. -/
structure Chunk where
  addr : Nat
  tiles : List Tile

namespace Chunk

/-- Where the first block is. -/
def start (c : Chunk) : Nat := c.addr + CHKHDR

/-- The blocks in use. -/
def blocks (c : Chunk) : List (Nat × Nat) := Lib.blocks BLKHDR c.start c.tiles

/-- What the headers take. -/
def weight (c : Chunk) : Nat := CHKHDR + BLKHDR * c.tiles.length

/-- The chunk is in memory, and its blocks fill it. -/
structure Sound (p : Params) (m : Memory) (c : Chunk) : Prop where
  positive : 0 < c.addr
  below : c.addr + p.chunk ≤ 2 ^ 32
  chkAddr : (m c.addr).chkAddr = c.addr
  limit : (m c.addr).size = p.chunk
  freeList : (m c.addr).freeList = firstFree BLKHDR c.start c.tiles
  laid : Laid m c.addr c.start c.tiles
  fill : Fill c.start c.tiles (c.addr + p.chunk)
  apart : Apart c.tiles

/-- The chunks do not overlap. -/
def Far (p : Params) (c d : Chunk) : Prop :=
  c.addr + p.chunk ≤ d.addr ∨ d.addr + p.chunk ≤ c.addr

variable {c d : Chunk}

theorem start_pos (c : Chunk) : 0 < c.start := by
  show 0 < c.addr + CHKHDR
  unfold CHKHDR
  omega

theorem addr_lt_start (c : Chunk) : c.addr < c.start := by
  show c.addr < c.addr + CHKHDR
  unfold CHKHDR
  omega

theorem Far.symm (h : Far p c d) : Far p d c := h.elim .inr .inl

instance : Std.Symm (Far p) := ⟨fun _ _ => Far.symm⟩

/-- Only the cells of the chunk matter, and of its own not the link. -/
theorem Sound.frame (same : ∀ x, c.start ≤ x → x < c.addr + p.chunk → m' x = m x)
    (header : ∃ next, m' c.addr = { m c.addr with next := next }) (h : c.Sound p m) :
    c.Sound p m' := by
  obtain ⟨next, e⟩ := header
  exact {
    positive := h.positive
    below := h.below
    chkAddr := by
      rw [e]
      exact h.chkAddr
    limit := by
      rw [e]
      exact h.limit
    freeList := by
      rw [e]
      exact h.freeList
    laid := h.laid.frame same h.fill
    fill := h.fill
    apart := h.apart }

theorem Sound.room (h : c.Sound p m) : c.addr < c.addr + p.chunk :=
  Nat.lt_of_lt_of_le c.addr_lt_start h.fill.le

/-- More rounds than there are blocks. -/
theorem Sound.enough (h : c.Sound p m) : c.tiles.length < p.chunk + 1 := by
  have count {a stop : Nat} {ts : List Tile} (fill : Fill a ts stop) : a + ts.length ≤ stop := by
    induction ts generalizing a with
    | nil => exact Nat.le_of_eq fill
    | cons t ts ih =>
        have := ih fill.2.2
        have := lt_span a t
        rw [List.length_cons]
        omega
  have := count h.fill
  have := c.addr_lt_start
  omega

end Chunk

/-- The blocks in use of all chunks. -/
def allocated (cs : List Chunk) : List (Nat × Nat) := cs.flatMap Chunk.blocks

/-- The heap is made of the chunks `cs`. -/
structure State.Holds (p : Params) (s : State) (cs : List Chunk) : Prop where
  chain : Chain s.mem s.chkList (cs.map Chunk.addr)
  sound : ∀ c ∈ cs, c.Sound p s.mem
  far : cs.Pairwise (Chunk.Far p)
  overhead : s.memoryOverhead = UInt32.ofNat (cs.map Chunk.weight).sum
  leak : s.memoryLeak = UInt32.ofNat ((allocated cs).map Prod.snd).sum

variable {c : Chunk} {cs xs ys : List Chunk} {ts ts' : List Tile} {x : Nat × Nat}
  {chk prev blk : Nat} {leak : UInt32} {v : Cell}

theorem mem_allocated : x ∈ allocated cs ↔ ∃ c ∈ cs, x ∈ c.blocks :=
  List.mem_flatMap

/-- A chunk with one block more. -/
theorem allocated_more {c' : Chunk} (more : c'.blocks.Perm (x :: c.blocks)) :
    (allocated (xs ++ c' :: ys)).Perm (x :: allocated (xs ++ c :: ys)) := by
  simp only [allocated, List.flatMap_append, List.flatMap_cons]
  refine (List.Perm.append_left _ (more.append_right _)).trans ?_
  exact List.perm_middle

theorem sum_allocated {cs' : List Chunk} (perm : (allocated cs').Perm (x :: allocated cs)) :
    UInt32.ofNat ((allocated cs').map Prod.snd).sum =
      UInt32.ofNat x.2 + UInt32.ofNat ((allocated cs).map Prod.snd).sum := by
  rw [(perm.map Prod.snd).sum_nat, List.map_cons, List.sum_cons, UInt32.ofNat_add]

/-- No bytes are lost in a chunk. -/
def AllWhole (cs : List Chunk) : Prop := ∀ c ∈ cs, Whole c.tiles

/-- The first chunk that can serve the request loses no bytes by it. -/
def AllExact (size : Nat) (cs : List Chunk) : Prop :=
  ∀ xs c ys, cs = xs ++ c :: ys → (∀ d ∈ xs, take BLKHDR MINSIZE size d.start d.tiles = none) →
    Exact BLKHDR MINSIZE size c.tiles

theorem AllWhole.reshape (whole : AllWhole (xs ++ c :: ys)) (here : Whole c.tiles → Whole ts') :
    AllWhole (xs ++ ⟨c.addr, ts'⟩ :: ys) := by
  intro d hd
  have others (d : Chunk) (hd : d ∈ xs ++ ys) : Whole d.tiles :=
    whole d (List.perm_middle.mem_iff.mpr (List.mem_cons_of_mem c hd))
  rcases List.mem_cons.mp (List.perm_middle.mem_iff.mp hd) with rfl | hd
  · exact here (whole c (List.mem_append_right xs List.mem_cons_self))
  · exact others d hd

namespace State.Holds

/-- Chunks in a list without overlap. -/
theorem apart (holds : s.Holds p (xs ++ c :: ys)) :
    ∀ d ∈ xs ++ ys, d.Far p c := by
  have far := List.pairwise_append.mp holds.far
  intro d hd
  rcases List.mem_append.mp hd with hd | hd
  · exact far.2.2 d hd c List.mem_cons_self
  · exact ((List.pairwise_cons.mp far.2.1).1 d hd).symm

theorem nodup (room : OVERHEAD ≤ p.chunk) (holds : s.Holds p cs) : (cs.map Chunk.addr).Nodup := by
  refine List.pairwise_map.mpr (holds.far.imp fun {c d} far same => ?_)
  unfold Chunk.Far at far
  unfold OVERHEAD CHKHDR BLKHDR at room
  omega

theorem enough (room : OVERHEAD ≤ p.chunk) (holds : s.Holds p cs) :
    cs.length < State.chunkFuel := by
  have inside : cs.map Chunk.addr ⊆ List.range (2 ^ 32) := by
    intro x hx
    obtain ⟨c, hc, rfl⟩ := List.mem_map.mp hx
    have := (holds.sound c hc).below
    unfold OVERHEAD CHKHDR BLKHDR at room
    exact List.mem_range.mpr (by omega)
  have le := (List.subperm_of_subset (holds.nodup room) inside).length_le
  rw [List.length_map, List.length_range] at le
  exact Nat.lt_succ_of_le le

/-- Only the cells of the chunks matter. -/
theorem frame (holds : s.Holds p cs)
    (mem : ∀ c ∈ cs, ∀ x, c.addr ≤ x → x < c.addr + p.chunk → s'.mem x = s.mem x)
    (list : s'.chkList = s.chkList) (overhead : s'.memoryOverhead = s.memoryOverhead)
    (leak : s'.memoryLeak = s.memoryLeak) : s'.Holds p cs where
  chain := by
    rw [list]
    refine holds.chain.frame fun x hx => ?_
    obtain ⟨c, hc, rfl⟩ := List.mem_map.mp hx
    rw [mem c hc c.addr (Nat.le_refl _) (holds.sound c hc).room]
  sound := fun c hc => by
    refine (holds.sound c hc).frame
      (fun x low => mem c hc x (Nat.le_trans (Nat.le_of_lt c.addr_lt_start) low))
      ⟨(s.mem c.addr).next, ?_⟩
    exact mem c hc c.addr (Nat.le_refl _) (holds.sound c hc).room
  far := holds.far
  overhead := overhead.trans holds.overhead
  leak := leak.trans holds.leak

theorem pendAllocSysrq (holds : s.Holds p cs) : (s.pendAllocSysrq p).Holds p cs := by
  unfold State.pendAllocSysrq
  split
  · exact holds.frame (fun _ _ _ _ _ => rfl) rfl rfl rfl
  · exact holds

theorem pendFreeSysrq (holds : s.Holds p cs) : (s.pendFreeSysrq p).Holds p cs := by
  unfold State.pendFreeSysrq
  split
  · exact holds.frame (fun _ _ _ _ _ => rfl) rfl rfl rfl
  · exact holds

variable (holds : s.Holds p (xs ++ c :: ys)) (room : OVERHEAD ≤ p.chunk)
  (reshaped : Reshaped s s' c.addr 0 c.start (c.addr + p.chunk) c.tiles ts')
include holds room reshaped

/-- What happens in a chunk changes nothing in another. -/
theorem elsewhere {d : Chunk} (hd : d ∈ xs ++ ys) {x : Nat} (low : d.addr ≤ x)
    (high : x < d.addr + p.chunk) : s'.mem x = s.mem x := by
  have far : d.addr + p.chunk ≤ c.addr ∨ c.addr + p.chunk ≤ d.addr := holds.apart d hd
  have before := c.addr_lt_start
  have large : 0 < p.chunk := Nat.lt_of_lt_of_le (by decide) room
  rw [reshaped.outside x (by omega)]
  exact update_of_ne (by omega) ..

/-- One chunk has changed. -/
theorem reshape {s'' : State} (fill : Fill c.start ts' (c.addr + p.chunk)) (apart : Apart ts')
    (mem : s''.mem = s'.mem) (list : s''.chkList = s'.chkList)
    (overhead : s''.memoryOverhead = s'.memoryOverhead)
   
    (leak : s''.memoryLeak = UInt32.ofNat ((allocated (xs ++ ⟨c.addr, ts'⟩ :: ys)).map Prod.snd).sum) :
    s''.Holds p (xs ++ ⟨c.addr, ts'⟩ :: ys) := by
  have sound := holds.sound c (List.mem_append_right xs List.mem_cons_self)
  have before := c.addr_lt_start
  have header : s'.mem c.addr =
      { s.mem c.addr with freeList := firstFree BLKHDR c.start ts' } := by
    rw [reshaped.outside c.addr (by omega)]
    exact update_self ..
  have large : 0 < p.chunk := Nat.lt_of_lt_of_le (by decide) room
  have others (d : Chunk) (hd : d ∈ xs ++ ys) (x : Nat) (low : d.addr ≤ x)
      (high : x < d.addr + p.chunk) : s'.mem x = s.mem x :=
    holds.elsewhere room reshaped hd low high
  have same : s''.chkList = s.chkList := by
    rw [list, reshaped.rest]
  have addrs : (xs ++ ⟨c.addr, ts'⟩ :: ys).map Chunk.addr = (xs ++ c :: ys).map Chunk.addr := by
    rw [List.map_append, List.map_append, List.map_cons, List.map_cons]
  refine ⟨?_, fun d hd => ?_, ?_, ?_, leak⟩
  · rw [mem, same, addrs]
    refine holds.chain.frame fun x hx => ?_
    obtain ⟨d, hd, rfl⟩ := List.mem_map.mp hx
    rcases List.mem_cons.mp (List.perm_middle.mem_iff.mp hd) with rfl | hd
    · rw [header]
    · rw [others d hd d.addr (Nat.le_refl _) (Nat.lt_add_of_pos_right large)]
  · rw [mem]
    rcases List.mem_cons.mp (List.perm_middle.mem_iff.mp hd) with rfl | hd
    · exact {
        positive := sound.positive
        below := sound.below
        chkAddr := by
          rw [header]
          exact sound.chkAddr
        limit := by
          rw [header]
          exact sound.limit
        freeList := by
          rw [header]
          rfl
        laid := reshaped.laid
        fill := fill
        apart := apart }
    · have inside : d ∈ xs ++ c :: ys :=
        List.perm_middle.mem_iff.mpr (List.mem_cons_of_mem c hd)
      refine (holds.sound d inside).frame (fun x low high => others d hd x ?_ high)
        ⟨(s.mem d.addr).next, ?_⟩
      · exact Nat.le_trans (Nat.le_of_lt d.addr_lt_start) low
      · exact others d hd d.addr (Nat.le_refl _) (Nat.lt_add_of_pos_right large)
  · have far (l : List Chunk) : (l.map Chunk.addr).Pairwise
        (fun a b => a + p.chunk ≤ b ∨ b + p.chunk ≤ a) ↔ l.Pairwise (Chunk.Far p) :=
      List.pairwise_map
    rw [← far, addrs, far]
    exact holds.far
  · have before := holds.overhead
    have kept := reshaped.overhead
    simp only [List.map_append, List.map_cons, List.sum_append, List.sum_cons, Chunk.weight,
      UInt32.ofNat_add] at before ⊢
    simp only [weight] at kept
    rw [overhead]
    grind

end State.Holds

/-! ## Allocation -/

/-- What a chunk is asked for, it does as `take`. -/
theorem allocInChk_spec (size : Nat) (sound : c.Sound p s.mem) :
    match take BLKHDR MINSIZE size c.start c.tiles with
    | none => s.allocInChk size c.addr = some (s, 0)
    | some (b, ts') => ∃ s', s.allocInChk size c.addr =
        some (s'.countAllocated size, b + BLKHDR) ∧
        Reshaped s s' c.addr 0 c.start (c.addr + p.chunk) c.tiles ts' := by
  have spec := allocLoop_spec size 0 sound.fill sound.laid sound.freeList c.start_pos
    sound.chkAddr c.start_pos c.addr_lt_start sound.enough
  cases found : take BLKHDR MINSIZE size c.start c.tiles with
  | none =>
      rw [found] at spec
      simp only [State.allocInChk, sound.limit, sound.freeList, spec]
      rfl
  | some r =>
      rw [found] at spec
      obtain ⟨s', does, reshaped⟩ := spec
      refine ⟨s', ?_, reshaped⟩
      simp only [State.allocInChk, sound.limit, sound.freeList, does]
      exact congrArg some (if_pos (Nat.ne_of_gt (Nat.add_pos_right _ blkhdr_pos)))

/-- A chunk without a free block cannot serve a request. -/
theorem take_none (full : firstFree BLKHDR a ts = 0) (positive : 0 < a) :
    take BLKHDR MINSIZE size a ts = none := by
  induction ts generalizing a with
  | nil => rfl
  | cons t ts ih =>
      rw [firstFree] at full
      split at full
      next used =>
        have other : ¬(t.used = false ∧ size ≤ t.size) := fun h => by
          rw [used] at h
          cases h.1
        rw [take, if_neg other, ih full (Nat.lt_trans positive (lt_span a t))]
        rfl
      next => exact absurd full (Nat.ne_of_gt positive)

/-- The first chunk that can serve the request does. -/
theorem mallocLoop_spec (size : Nat) (sound : ∀ c ∈ cs, c.Sound p s.mem)
    (chain : Chain s.mem a (cs.map Chunk.addr)) (enough : cs.length < k) :
    (s.mallocLoop size k a = some (s, 0) ∧
      ∀ c ∈ cs, take BLKHDR MINSIZE size c.start c.tiles = none) ∨
    ∃ xs c ys b ts' s', cs = xs ++ c :: ys ∧
      (∀ d ∈ xs, take BLKHDR MINSIZE size d.start d.tiles = none) ∧
      take BLKHDR MINSIZE size c.start c.tiles = some (b, ts') ∧
      s.mallocLoop size k a = some (s'.countAllocated size, b + BLKHDR) ∧
      Reshaped s s' c.addr 0 c.start (c.addr + p.chunk) c.tiles ts' := by
  induction cs generalizing a k with
  | nil =>
      obtain ⟨k, rfl⟩ := Nat.exists_eq_succ_of_ne_zero (Nat.ne_of_gt enough)
      exact .inl ⟨if_pos chain, nofun⟩
  | cons c cs ih =>
      obtain ⟨k, rfl⟩ := Nat.exists_eq_succ_of_ne_zero (Nat.ne_of_gt (Nat.zero_lt_of_lt enough))
      obtain ⟨rfl, some, rest⟩ := chain
      have here := sound c List.mem_cons_self
      have tail := ih (fun d hd => sound d (List.mem_cons_of_mem c hd)) rest
        (Nat.lt_of_succ_lt_succ enough)
      -- from a chunk that cannot serve the request it goes on to the next
      have goes (none : take BLKHDR MINSIZE size c.start c.tiles = none)
          (does : s.mallocLoop size (k + 1) c.addr = s.mallocLoop size k (s.mem c.addr).next) :
          (s.mallocLoop size (k + 1) c.addr = .some (s, 0) ∧
            ∀ d ∈ c :: cs, take BLKHDR MINSIZE size d.start d.tiles = .none) ∨
          ∃ xs d ys b ts' s', c :: cs = xs ++ d :: ys ∧
            (∀ d ∈ xs, take BLKHDR MINSIZE size d.start d.tiles = .none) ∧
            take BLKHDR MINSIZE size d.start d.tiles = .some (b, ts') ∧
            s.mallocLoop size (k + 1) c.addr = .some (s'.countAllocated size, b + BLKHDR) ∧
            Reshaped s s' d.addr 0 d.start (d.addr + p.chunk) d.tiles ts' := by
        rw [does]
        rcases tail with ⟨same, nothing⟩ | ⟨xs, d, ys, b, ts', s', e, before, taken⟩
        · refine .inl ⟨same, fun d hd => ?_⟩
          rcases List.mem_cons.mp hd with rfl | hd
          · exact none
          · exact nothing d hd
        · refine .inr ⟨c :: xs, d, ys, b, ts', s', ?_, fun d hd => ?_, taken⟩
          · rw [e, List.cons_append]
          · rcases List.mem_cons.mp hd with rfl | hd
            · exact none
            · exact before d hd
      have spec := allocInChk_spec size here
      by_cases full : (s.mem c.addr).freeList = 0
      · refine goes (take_none (here.freeList.symm.trans full) c.start_pos) ?_
        rw [State.mallocLoop, if_neg some, if_neg (not_not.mpr full)]
      · cases found : take BLKHDR MINSIZE size c.start c.tiles with
        | none =>
            rw [found] at spec
            refine goes found ?_
            rw [State.mallocLoop, if_neg some, if_pos full, spec]
            rfl
        | some r =>
            rw [found] at spec
            obtain ⟨s', does, reshaped⟩ := spec
            refine .inr ⟨[], c, cs, r.1, r.2, s', rfl, nofun, found, ?_, reshaped⟩
            have found : r.1 + BLKHDR ≠ 0 := Nat.ne_of_gt (Nat.add_pos_right r.1 blkhdr_pos)
            rw [State.mallocLoop, if_neg some, if_pos full, does, Option.bind_eq_bind,
              Option.bind_some]
            dsimp only
            rw [if_pos found]
            rfl

theorem roundUp_dvd (n : Nat) : MINSIZE ∣ State.roundUp n := by
  unfold State.roundUp MINSIZE
  dsimp only
  omega

/-- The rounding of a request wraps in the last `MINSIZE` sizes only. -/
theorem le_roundUp (fits : n ≤ 2 ^ 32 - MINSIZE) : n ≤ State.roundUp n := by
  unfold MINSIZE at fits
  unfold State.roundUp MINSIZE
  dsimp only
  omega

section

variable (room : OVERHEAD ≤ p.chunk)
include room

/-- A request that a chunk can have is rounded up. -/
theorem roundUp_spec (fits : n ≤ p.chunk - OVERHEAD) : n ≤ State.roundUp n := by
  have bound := p.chunk_lt
  refine le_roundUp ?_
  unfold OVERHEAD CHKHDR BLKHDR at *
  unfold MINSIZE
  omega

/-- `rt_malloc` refuses a request as too large, finds no block for it, or serves it from one
chunk. -/
theorem rtMalloc_cases (holds : s.Holds p cs) (n : Nat) :
    (s.rtMalloc p n = some (s, 0) ∧ State.roundUp n > lessOverhead p.chunk) ∨
    State.roundUp n ≤ lessOverhead p.chunk ∧
      ((s.rtMalloc p n = some (s.pendAllocSysrq p, 0) ∧
        ∀ c ∈ cs, take BLKHDR MINSIZE (State.roundUp n) c.start c.tiles = none) ∨
      ∃ xs c ys b ts' s', cs = xs ++ c :: ys ∧
        (∀ d ∈ xs, take BLKHDR MINSIZE (State.roundUp n) d.start d.tiles = none) ∧
        take BLKHDR MINSIZE (State.roundUp n) c.start c.tiles = some (b, ts') ∧
        s.rtMalloc p n =
          some ((s'.countAllocated (State.roundUp n)).pendAllocSysrq p, b + BLKHDR) ∧
        Reshaped s s' c.addr 0 c.start (c.addr + p.chunk) c.tiles ts') := by
  by_cases tooLarge : State.roundUp n > lessOverhead p.chunk
  · exact .inl ⟨if_pos tooLarge, tooLarge⟩
  · refine .inr ⟨Nat.le_of_not_gt tooLarge, ?_⟩
    rcases mallocLoop_spec (State.roundUp n) holds.sound holds.chain
      (holds.enough room) with ⟨does, none⟩ |
        ⟨xs, c, ys, b, ts', s', rfl, before, taken, does, reshaped⟩
    · refine .inl ⟨?_, none⟩
      rw [State.rtMalloc, if_neg tooLarge, does]
      rfl
    · refine .inr ⟨xs, c, ys, b, ts', s', rfl, before, taken, ?_, reshaped⟩
      rw [State.rtMalloc, if_neg tooLarge, does]
      rfl

/-- A request that has been served. -/
theorem State.Holds.take (holds : s.Holds p (xs ++ c :: ys)) {b : Nat}
    (taken : take BLKHDR MINSIZE (State.roundUp n) c.start c.tiles = some (b, ts'))
    (reshaped : Reshaped s s' c.addr 0 c.start (c.addr + p.chunk) c.tiles ts') :
    ((s'.countAllocated (State.roundUp n)).pendAllocSysrq p).Holds p (xs ++ ⟨c.addr, ts'⟩ :: ys) ∧
      (allocated (xs ++ ⟨c.addr, ts'⟩ :: ys)).Perm
        ((b + BLKHDR, State.roundUp n) :: allocated (xs ++ c :: ys)) := by
  have sound := holds.sound c (List.mem_append_right xs List.mem_cons_self)
  have more : (allocated (xs ++ ⟨c.addr, ts'⟩ :: ys)).Perm
      ((b + BLKHDR, State.roundUp n) :: allocated (xs ++ c :: ys)) :=
    allocated_more (blocks_take taken)
  refine ⟨.pendAllocSysrq (holds.reshape room reshaped
    (sound.fill.take (by decide) (roundUp_dvd n) taken) (sound.apart.take taken) rfl rfl rfl ?_),
    more⟩
  rw [sum_allocated more, ← holds.leak]
  show s'.memoryLeak + _ = _
  rw [reshaped.rest, UInt32.add_comm]

/-- `rt_malloc` returns `NULL` and changes no block, or it has served the request from one
chunk. -/
theorem rtMalloc_spec (holds : s.Holds p cs) (n : Nat) :
    ∃ s' q, s.rtMalloc p n = some (s', q) ∧
      ((q = 0 ∧ s'.Holds p cs ∧ (State.roundUp n ≤ p.chunk - OVERHEAD →
          ∀ c ∈ cs, take BLKHDR MINSIZE (State.roundUp n) c.start c.tiles = none)) ∨
        ∃ xs c ys b ts', cs = xs ++ c :: ys ∧
          (∀ d ∈ xs, take BLKHDR MINSIZE (State.roundUp n) d.start d.tiles = none) ∧
          take BLKHDR MINSIZE (State.roundUp n) c.start c.tiles = some (b, ts') ∧
          q = b + BLKHDR ∧ s'.Holds p (xs ++ ⟨c.addr, ts'⟩ :: ys) ∧
          (allocated (xs ++ ⟨c.addr, ts'⟩ :: ys)).Perm
            ((q, State.roundUp n) :: allocated cs)) := by
  rcases rtMalloc_cases room holds n with ⟨does, tooLarge⟩ | ⟨-, ⟨does, none⟩ |
      ⟨xs, c, ys, b, ts', s', rfl, before, taken, does, reshaped⟩⟩
  · refine ⟨s, 0, does, .inl ⟨rfl, holds, fun fits => ?_⟩⟩
    rw [lessOverhead_eq room p.chunk_lt] at tooLarge
    exact absurd fits (Nat.not_le_of_gt tooLarge)
  · exact ⟨_, 0, does, .inl ⟨rfl, holds.pendAllocSysrq, fun _ => none⟩⟩
  · obtain ⟨holds', more⟩ := holds.take room taken reshaped
    exact ⟨_, _, does, .inr ⟨xs, c, ys, b, ts', rfl, before, taken, rfl, holds', more⟩⟩

end

/-! ## Freeing -/

/-- The header of a block in use. -/
theorem Laid.block (laid : Laid m a b ts) (mem : (q, n) ∈ blocks BLKHDR b ts) :
    (m (q - BLKHDR)).chkAddr = a ∧ (m (q - BLKHDR)).size = n ∧
      (m (q - BLKHDR)).next = q - BLKHDR := by
  induction ts generalizing b with
  | nil => cases mem
  | cons t ts ih =>
      rw [blocks] at mem
      split at mem
      next used =>
        rcases List.mem_cons.mp mem with e | mem
        · cases e
          rw [Nat.add_sub_cancel]
          exact ⟨laid.1, laid.2.1, laid.2.2.1.trans (if_pos used)⟩
        · exact ih laid.2.2.2 mem
      next => exact ih laid.2.2.2 mem

theorem mergePrev_leak : State.mergePrev chk prev blk { s with memoryLeak := leak } =
      ({ (s.mergePrev chk prev blk).1 with memoryLeak := leak }, (s.mergePrev chk prev blk).2) := by
  unfold State.mergePrev
  dsimp only
  split
  · rfl
  · split
    · rfl
    · rfl

theorem mergeNext_leak : State.mergeNext blk { s with memoryLeak := leak } =
      { s.mergeNext blk with memoryLeak := leak } := by
  unfold State.mergeNext
  dsimp only
  split
  · rfl
  · rfl

/-- The count of allocated bytes plays no part in the merges. -/
theorem merge_leak : State.merge chk prev blk { s with memoryLeak := leak } =
      { s.merge chk prev blk with memoryLeak := leak } := by
  unfold State.merge
  rw [mergePrev_leak, mergeNext_leak]

/-- What lies in a chunk is less than the chunk without its headers. -/
theorem Chunk.Sound.block (sound : c.Sound p m) (mem : (q, n) ∈ c.blocks) :
    c.addr + OVERHEAD ≤ q ∧ q + n ≤ c.addr + p.chunk := by
  have inside := sound.fill.area_inside (blocks_subset mem)
  exact ⟨(Nat.add_assoc ..).symm.trans_le inside.1, inside.2⟩

/-- `rt_free` refuses a block without a byte. -/
theorem rtFree_empty (sound : c.Sound p s.mem) (mem : (q, 0) ∈ c.blocks) :
    s.rtFree p q = some s := by
  obtain ⟨-, size, -⟩ := sound.laid.block mem
  exact if_pos (.inr (.inr (.inl size)))

/-- `rt_free` of a block in use. -/
theorem rtFree_does (room : OVERHEAD ≤ p.chunk) (sound : c.Sound p s.mem)
    (mem : (q, n) ∈ c.blocks) (some : 0 < n) :
    ∃ s', s.rtFree p q = .some (State.pendFreeSysrq p
        { s' with memoryLeak := s.memoryLeak - UInt32.ofNat n }) ∧
      Reshaped s s' c.addr 0 c.start (c.addr + p.chunk) c.tiles
        (release BLKHDR (q - BLKHDR) c.start c.tiles) := by
  obtain ⟨chkAddr, size, next⟩ := sound.laid.block mem
  have multiple := sound.fill.block_size mem
  obtain ⟨low, high⟩ := sound.block mem
  have e := lessOverhead_eq room p.chunk_lt
  have valid : ¬((s.mem (q - BLKHDR)).chkAddr ≠ (s.mem (s.mem (q - BLKHDR)).chkAddr).chkAddr ∨
      (s.mem (q - BLKHDR)).next ≠ q - BLKHDR ∨ (s.mem (q - BLKHDR)).size = 0 ∨
      (s.mem (q - BLKHDR)).size > lessOverhead p.chunk ∨
      (s.mem (q - BLKHDR)).size % MINSIZE ≠ 0) := by
    rw [chkAddr, sound.chkAddr, size, next, e, Nat.mod_eq_zero_of_dvd multiple]
    omega
  have back : q - BLKHDR + BLKHDR = q := by
    unfold OVERHEAD at low
    omega
  obtain ⟨prev, cur, loop, reshaped⟩ := freeLoop_spec 0 (q - BLKHDR) n
    sound.fill sound.apart sound.laid sound.freeList c.start_pos c.start_pos c.addr_lt_start
    (fun h => h.1 rfl) sound.enough (by rwa [back])
  rw [back] at loop
  refine ⟨s.merge c.addr prev (q - BLKHDR), ?_, reshaped⟩
  rw [State.rtFree, if_neg valid, chkAddr, sound.limit, sound.freeList, loop, size]
  exact congrArg (fun s => Option.some (State.pendFreeSysrq p s)) merge_leak

/-- A block that has been released. -/
theorem State.Holds.release (room : OVERHEAD ≤ p.chunk) (holds : s.Holds p (xs ++ c :: ys))
    (mem : (q, n) ∈ c.blocks)
    (reshaped : Reshaped s s' c.addr 0 c.start (c.addr + p.chunk) c.tiles
      (release BLKHDR (q - BLKHDR) c.start c.tiles)) :
    State.Holds p (State.pendFreeSysrq p { s' with memoryLeak := s.memoryLeak - UInt32.ofNat n })
        (xs ++ ⟨c.addr, release BLKHDR (q - BLKHDR) c.start c.tiles⟩ :: ys) ∧
      (allocated (xs ++ c :: ys)).Perm ((q, n) ::
        allocated (xs ++ ⟨c.addr, release BLKHDR (q - BLKHDR) c.start c.tiles⟩ :: ys)) := by
  have sound := holds.sound c (List.mem_append_right xs List.mem_cons_self)
  have back : q - BLKHDR + BLKHDR = q := by
    have low := (sound.block mem).1
    unfold OVERHEAD at low
    omega
  have less : (allocated (xs ++ c :: ys)).Perm ((q, n) ::
      allocated (xs ++ ⟨c.addr, Lib.release BLKHDR (q - BLKHDR) c.start c.tiles⟩ :: ys)) := by
    refine allocated_more ?_
    have released := blocks_release (b := q - BLKHDR) (n := n) blkhdr_pos (by rwa [back])
    rwa [back] at released
  refine ⟨.pendFreeSysrq (holds.reshape room reshaped sound.fill.release sound.apart.release
    rfl rfl rfl ?_), less⟩
  have leak := holds.leak
  rw [sum_allocated less] at leak
  show s.memoryLeak - UInt32.ofNat n = _
  rw [leak]
  grind

/-- `rt_free` of a block in use releases it in its chunk. -/
theorem rtFree_spec (room : OVERHEAD ≤ p.chunk) (holds : s.Holds p (xs ++ c :: ys))
    (mem : (q, n) ∈ c.blocks) (some : 0 < n) :
    ∃ s', s.rtFree p q = .some s' ∧
      s'.Holds p (xs ++ ⟨c.addr, release BLKHDR (q - BLKHDR) c.start c.tiles⟩ :: ys) ∧
      (allocated (xs ++ c :: ys)).Perm ((q, n) ::
        allocated (xs ++ ⟨c.addr, release BLKHDR (q - BLKHDR) c.start c.tiles⟩ :: ys)) := by
  have sound := holds.sound c (List.mem_append_right xs List.mem_cons_self)
  obtain ⟨s', does, reshaped⟩ := rtFree_does room sound mem some
  obtain ⟨holds', less⟩ := holds.release room mem reshaped
  exact ⟨_, does, holds', less⟩

/-! ## A chunk comes -/

/-- A chunk of which nothing is in use. -/
def Chunk.unused (p : Params) (chk : Nat) : Chunk := ⟨chk, [⟨false, p.chunk - OVERHEAD, 0⟩]⟩

theorem allocated_unused : allocated (xs ++ Chunk.unused p chk :: ys) = allocated (xs ++ ys) := by
  rw [allocated, allocated, List.flatMap_append, List.flatMap_append]
  rfl

theorem AllWhole.withChunk (whole : AllWhole cs) : AllWhole (cs ++ [Chunk.unused p chk]) := by
  intro c hc t ht
  rcases List.mem_append.mp hc with hc | hc
  · exact whole c hc t ht
  · cases List.mem_singleton.mp hc
    cases List.mem_singleton.mp ht
    rfl

/-- The region at `chk` is aligned and meets none of the chunks. -/
structure Fresh (p : Params) (chk : Nat) (cs : List Nat) : Prop where
  aligned : MINSIZE ∣ chk
  below : chk + p.chunk ≤ 2 ^ 32
  far : ∀ c ∈ cs, c + p.chunk ≤ chk ∨ chk + p.chunk ≤ c

namespace State.Holds

theorem far_or_same (holds : s.Holds p cs) {d : Chunk} (hc : c ∈ cs) (hd : d ∈ cs) :
    c = d ∨ c.Far p d :=
  (em (c = d)).imp_right fun other => holds.far.forall hc hd other

/-- The link of a chunk is no matter for its blocks. -/
theorem sound_setNext {d : Chunk} {v : Nat} (holds : s.Holds p cs) (hd : d ∈ cs) (hc : c ∈ cs) :
    c.Sound p (s.setNext d.addr v).mem := by
  have before := c.addr_lt_start
  have sound := holds.sound c hc
  have range := sound.room
  have outside : d.addr = c.addr ∨ d.addr < c.addr ∨ c.addr + p.chunk ≤ d.addr := by
    rcases holds.far_or_same hc hd with rfl | far
    · exact .inl rfl
    · have far : c.addr + p.chunk ≤ d.addr ∨ d.addr + p.chunk ≤ c.addr := far
      omega
  refine sound.frame (fun x low high => update_of_ne (by omega) ..) ?_
  rcases eq_or_ne c.addr d.addr with e | other
  · rw [e]
    exact ⟨v, update_self ..⟩
  · exact ⟨(s.mem c.addr).next, update_of_ne other ..⟩

end State.Holds

/-- A chunk as `initChunk` leaves it. -/
theorem Chunk.unused_sound (room : OVERHEAD ≤ p.chunk) (some : chk ≠ 0) (fresh : Fresh p chk l)
    {next : Nat}
    (header : m chk = { chkAddr := chk, next := next, size := p.chunk, freeList := chk + CHKHDR })
    (first : (m (chk + CHKHDR)).chkAddr = chk ∧ (m (chk + CHKHDR)).next = 0 ∧
      (m (chk + CHKHDR)).size = p.chunk - OVERHEAD) : (unused p chk).Sound p m where
  positive := Nat.pos_of_ne_zero some
  below := fresh.below
  chkAddr := by
    show (m chk).chkAddr = chk
    rw [header]
  limit := by
    show (m chk).size = p.chunk
    rw [header]
  freeList := by
    show (m chk).freeList = _
    rw [header]
    rfl
  laid := ⟨first.1, first.2.2, first.2.1, trivial⟩
  fill := by
    refine ⟨Nat.dvd_add fresh.aligned (by decide), nofun, ?_⟩
    show chk + CHKHDR + (BLKHDR + (p.chunk - OVERHEAD) + 0) = chk + p.chunk
    unfold OVERHEAD at *
    omega
  apart := ⟨nofun, trivial⟩

/-- Behind the headers of the chunks nothing has changed. -/
def State.Keeps (p : Params) (cs : List Chunk) (s s' : State) : Prop :=
  ∀ c ∈ cs, ∀ x, c.start ≤ x → x < c.addr + p.chunk → s'.mem x = s.mem x

/-- The counts with a chunk more. -/
def State.withChunk (p : Params) (s : State) : State :=
  { s with
    sysMallocCalls := s.sysMallocCalls + 1
    totalAvailable := s.totalAvailable + p.granularity
    memoryOverhead := s.memoryOverhead + UInt32.ofNat OVERHEAD }

/-- A new chunk comes last. -/
theorem addChunk_spec (room : OVERHEAD ≤ p.chunk) (holds : s.Holds p cs) (some : chk ≠ 0)
    (fresh : Fresh p chk (cs.map Chunk.addr)) :
    ∃ s', s.addChunk p chk = .some s' ∧ s'.Holds p (cs ++ [Chunk.unused p chk]) ∧
      s.Keeps p cs s' ∧ ∃ mem list, s' = { s.withChunk p with mem := mem, chkList := list } := by
  let header : Cell := { chkAddr := chk, next := 0, size := p.chunk, freeList := chk + CHKHDR }
  let first : Cell := { s.mem (chk + CHKHDR) with
    chkAddr := chk, next := 0, size := lessOverhead p.chunk }
  let s₁ : State := { s.initChunk p chk with
    sysMallocCalls := s.sysMallocCalls + 1
    totalAvailable := s.totalAvailable + p.granularity
    memoryOverhead := s.memoryOverhead + UInt32.ofNat OVERHEAD }
  have e := lessOverhead_eq room p.chunk_lt
  have apart : chk ≠ chk + CHKHDR := by
    unfold CHKHDR
    omega
  have there : s₁.mem chk = header := by
    show update (update s.mem chk header) (chk + CHKHDR) first chk = header
    rw [update_of_ne apart, update_self]
  have behind : s₁.mem (chk + CHKHDR) = first := update_self ..
  have outside (x : Nat) (out : x < chk ∨ chk + p.chunk ≤ x) : s₁.mem x = s.mem x := by
    unfold OVERHEAD BLKHDR at room
    show update (update s.mem chk header) (chk + CHKHDR) first x = s.mem x
    rw [update_of_ne (by omega), update_of_ne (by omega)]
  have far (c : Chunk) (hc : c ∈ cs) : c.addr + p.chunk ≤ chk ∨ chk + p.chunk ≤ c.addr :=
    fresh.far c.addr (List.mem_map.mpr ⟨c, hc, rfl⟩)
  have kept (c : Chunk) (hc : c ∈ cs) (x : Nat) (low : c.addr ≤ x) (high : x < c.addr + p.chunk) :
      s₁.mem x = s.mem x := by
    have := far c hc
    exact outside x (by omega)
  have accounts : s₁.memoryOverhead =
        UInt32.ofNat ((cs ++ [Chunk.unused p chk]).map Chunk.weight).sum ∧
      s₁.memoryLeak =
        UInt32.ofNat ((allocated (cs ++ [Chunk.unused p chk])).map Prod.snd).sum := by
    constructor
    · rw [List.map_append, List.sum_append, UInt32.ofNat_add, ← holds.overhead]
      rfl
    · rw [allocated_unused, List.append_nil]
      exact holds.leak
  have apartNow : (cs ++ [Chunk.unused p chk]).Pairwise (Chunk.Far p) := by
    refine List.pairwise_append.mpr ⟨holds.far, List.pairwise_singleton _ _, fun c hc d hd => ?_⟩
    cases List.mem_singleton.mp hd
    exact far c hc
  rcases List.eq_nil_or_concat' cs with rfl | ⟨cs, d, rfl⟩
  · have empty : s₁.chkList = 0 := holds.chain
    refine ⟨{ s₁ with chkList := chk }, if_pos empty, ⟨?_, ?_, apartNow, accounts.1, accounts.2⟩,
      fun c hc => absurd hc List.not_mem_nil, _, _, rfl⟩
    · refine ⟨rfl, some, ?_⟩
      show (s₁.mem chk).next = 0
      rw [there]
    · intro c hc
      cases List.mem_singleton.mp hc
      exact Chunk.unused_sound room some fresh there (by rw [behind]; exact ⟨rfl, rfl, e⟩)
  · let s₀ : State := { s₁ with memoryOverhead := s.memoryOverhead }
    have before : s₀.Holds p (cs ++ [d]) := holds.frame kept rfl rfl rfl
    have last : d ∈ cs ++ [d] := List.mem_append_right cs List.mem_cons_self
    have chain : Chain s₁.mem s₁.chkList (cs.map Chunk.addr ++ [d.addr]) := by
      have chain := before.chain
      rwa [List.map_append] at chain
    have someList : s₁.chkList ≠ 0 := fun none => by
      have nothing := chain.empty.mp none
      exact absurd nothing (List.append_ne_nil_of_right_ne_nil _ (List.cons_ne_nil _ _))
    have enough : (cs.map Chunk.addr).length < State.chunkFuel := by
      have := holds.enough room
      rw [List.length_append] at this
      rw [List.length_map]
      omega
    have farLast := far d last
    have roomLast := (holds.sound d last).room
    refine ⟨s₁.setNext d.addr chk, ?_, ⟨?_, fun c hc => ?_, apartNow, accounts.1, accounts.2⟩,
      fun c hc x low high => ?_, _, _, rfl⟩
    · show s₁.linkChunk chk = _
      rw [State.linkChunk, if_neg someList, chain.lastChunk enough]
      rfl
    · rw [List.map_append, List.map_append, List.append_assoc]
      refine chain.behind (fun x hx => ?_) ?_
      · obtain ⟨c, hc, rfl⟩ := List.mem_map.mp hx
        have away : c.addr + p.chunk ≤ d.addr ∨ d.addr + p.chunk ≤ c.addr :=
          (List.pairwise_append.mp holds.far).2.2 c hc d List.mem_cons_self
        have roomHere := (holds.sound c (List.mem_append_left _ hc)).room
        exact congrArg Cell.next (update_of_ne (by omega) ..)
      · have link : ((s₁.setNext d.addr chk).mem d.addr).next = chk := by
          show (update s₁.mem d.addr _ d.addr).next = chk
          rw [update_self]
        have new : (s₁.setNext d.addr chk).mem chk = header :=
          (update_of_ne (by omega) ..).trans there
        rw [link]
        refine ⟨rfl, some, ?_⟩
        show ((s₁.setNext d.addr chk).mem chk).next = 0
        rw [new]
    · rcases List.mem_append.mp hc with hc | hc
      · exact before.sound_setNext last hc
      · cases List.mem_singleton.mp hc
        have new : (s₁.setNext d.addr chk).mem chk = header :=
          (update_of_ne (by omega) ..).trans there
        have newFirst : (s₁.setNext d.addr chk).mem (chk + CHKHDR) = first := by
          unfold OVERHEAD BLKHDR at room
          exact (update_of_ne (by omega) ..).trans behind
        exact Chunk.unused_sound room some fresh new (by rw [newFirst]; exact ⟨rfl, rfl, e⟩)
    · have before := c.addr_lt_start
      refine (update_of_ne ?_ ..).trans (kept c hc x (by omega) high)
      rcases holds.far_or_same hc last with rfl | away
      · omega
      · have away : c.addr + p.chunk ≤ d.addr ∨ d.addr + p.chunk ≤ c.addr := away
        omega

/-! ## A chunk goes -/

theorem Laid.free {f : Nat} (laid : Laid m a b ts) (mem : (f, n) ∈ frees BLKHDR b ts) :
    (m f).size = n := by
  induction ts generalizing b with
  | nil => cases mem
  | cons t ts ih =>
      rw [frees] at mem
      split at mem
      · exact ih laid.2.2.2 mem
      · rcases List.mem_cons.mp mem with e | mem
        · cases e
          exact laid.2.1
        · exact ih laid.2.2.2 mem

theorem Laid.chain (laid : Laid m b a ts) (positive : 0 < a) :
    Chain m (firstFree BLKHDR a ts) ((frees BLKHDR a ts).map Prod.fst) := by
  induction ts generalizing a with
  | nil => rfl
  | cons t ts ih =>
      have rest := ih laid.2.2.2 (Nat.lt_trans positive (lt_span a t))
      rw [firstFree, frees]
      split
      · exact rest
      next unused =>
        refine ⟨rfl, Nat.ne_of_gt positive, ?_⟩
        rw [laid.2.2.1, if_neg unused]
        exact rest

theorem firstFree_mem (some : firstFree BLKHDR a ts ≠ 0) :
    ∃ n, (firstFree BLKHDR a ts, n) ∈ frees BLKHDR a ts := by
  induction ts generalizing a with
  | nil => exact absurd rfl some
  | cons t ts ih =>
      rw [firstFree] at some ⊢
      rw [frees]
      split at some
      next used =>
        rw [if_pos used, if_pos used]
        exact ih some
      next unused =>
        rw [if_neg unused, if_neg unused]
        exact ⟨t.size, List.mem_cons_self⟩

/-- The test of `rt_free_sysrq_handler` finds the chunks of which nothing is in use. -/
theorem Chunk.Sound.unused_iff (room : OVERHEAD ≤ p.chunk) (sound : c.Sound p m) :
    ((m c.addr).freeList ≠ 0 ∧
      (m (m c.addr).freeList).size = lessOverhead (m c.addr).size) ↔ c = unused p c.addr := by
  have e := lessOverhead_eq room p.chunk_lt
  rw [sound.freeList, sound.limit, e]
  constructor
  · rintro ⟨some, size⟩
    obtain ⟨n, mem⟩ := firstFree_mem some
    rw [sound.laid.free mem] at size
    subst size
    have only := sound.fill.only blkhdr_pos mem (by
      unfold start OVERHEAD at *
      omega)
    obtain ⟨addr, tiles⟩ := c
    cases only
    rfl
  · intro whole
    have first : firstFree BLKHDR c.start c.tiles = c.start := by
      rw [whole]
      rfl
    rw [first]
    refine ⟨Nat.ne_of_gt c.start_pos, ?_⟩
    have laid := sound.laid
    rw [whole] at laid
    exact laid.2.1

/-- The first chunk of which nothing is in use is found, with the one before it. -/
theorem findFree_spec (prev : Nat) (room : OVERHEAD ≤ p.chunk) (sound : ∀ c ∈ cs, c.Sound p s.mem)
    (chain : Chain s.mem a (cs.map Chunk.addr)) (enough : cs.length < k) :
    (s.findFree k prev a = some none ∧ ∀ c ∈ cs, c ≠ .unused p c.addr) ∨
    ∃ xs chk ys, cs = xs ++ Chunk.unused p chk :: ys ∧
      s.findFree k prev a = some (some ((xs.map Chunk.addr).getLastD prev, chk)) := by
  induction cs generalizing a k prev with
  | nil =>
      obtain ⟨k, rfl⟩ := Nat.exists_eq_succ_of_ne_zero (Nat.ne_of_gt enough)
      exact .inl ⟨if_pos chain, nofun⟩
  | cons c cs ih =>
      obtain ⟨k, rfl⟩ := Nat.exists_eq_succ_of_ne_zero (Nat.ne_of_gt (Nat.zero_lt_of_lt enough))
      obtain ⟨rfl, some, rest⟩ := chain
      have test := (sound c List.mem_cons_self).unused_iff room
      by_cases whole : c = .unused p c.addr
      · refine .inr ⟨[], c.addr, cs, ?_, ?_⟩
        · rw [← whole]
          rfl
        · rw [State.findFree, if_neg some]
          exact if_pos (test.mpr whole)
      · have goes : s.findFree (k + 1) prev c.addr = s.findFree k c.addr (s.mem c.addr).next := by
          rw [State.findFree, if_neg some]
          exact if_neg fun h => whole (test.mp h)
        rw [goes]
        rcases ih c.addr (fun d hd => sound d (List.mem_cons_of_mem c hd)) rest
          (Nat.lt_of_succ_lt_succ enough) with ⟨none, nothing⟩ | ⟨xs, chk, ys, e, found⟩
        · refine .inl ⟨none, fun d hd => ?_⟩
          rcases List.mem_cons.mp hd with rfl | hd
          · exact whole
          · exact nothing d hd
        · refine .inr ⟨c :: xs, chk, ys, ?_, ?_⟩
          · rw [e, List.cons_append]
          · rw [found, List.map_cons, List.getLastD_cons]

/-- `chk_list` without a chunk. -/
def State.unlinkChunk (prev chk : Nat) (s : State) : State :=
  if prev = 0 then { s with chkList := (s.mem chk).next } else s.setNext prev (s.mem chk).next

theorem unlinkChunk_rest :
    (s.unlinkChunk prev chk).memoryOverhead = s.memoryOverhead ∧
      (s.unlinkChunk prev chk).memoryLeak = s.memoryLeak := by
  unfold State.unlinkChunk
  split
  · exact ⟨rfl, rfl⟩
  · exact ⟨rfl, rfl⟩

theorem unlinkChunk_same : ∃ list,
    s.unlinkChunk prev chk = { s with mem := (s.unlinkChunk prev chk).mem, chkList := list } := by
  unfold State.unlinkChunk
  split
  · exact ⟨_, rfl⟩
  · exact ⟨_, rfl⟩

/-- The chunk in front of one that is not the first. -/
theorem State.Holds.unlink_behind (holds : s.Holds p (xs ++ [d] ++ c :: ys)) :
    d ∈ xs ++ [d] ++ c :: ys ∧ d.addr ≠ 0 ∧ ((xs ++ [d]).map Chunk.addr).getLastD 0 = d.addr := by
  have last : d ∈ xs ++ [d] ++ c :: ys :=
    List.mem_append_left _ (List.mem_append_right xs List.mem_cons_self)
  refine ⟨last, Nat.ne_of_gt (holds.sound d last).positive, ?_⟩
  rw [List.map_append]
  exact List.getLastD_concat ..

theorem State.Holds.unlink_keeps (holds : s.Holds p (xs ++ c :: ys)) :
    s.Keeps p (xs ++ c :: ys) (s.unlinkChunk ((xs.map Chunk.addr).getLastD 0) c.addr) := by
  intro d hd x low high
  rcases List.eq_nil_or_concat' xs with rfl | ⟨xs, e, rfl⟩
  · rfl
  · obtain ⟨last, some, prev⟩ := holds.unlink_behind
    have before := d.addr_lt_start
    have room := (holds.sound e last).room
    rw [prev, State.unlinkChunk, if_neg some]
    refine update_of_ne ?_ ..
    rcases holds.far_or_same hd last with rfl | away
    · omega
    · have away : d.addr + p.chunk ≤ e.addr ∨ e.addr + p.chunk ≤ d.addr := away
      omega

/-- The other chunks stay as they are. -/
theorem State.Holds.unlink (holds : s.Holds p (xs ++ c :: ys)) :
    let s' := s.unlinkChunk ((xs.map Chunk.addr).getLastD 0) c.addr
    Chain s'.mem s'.chkList ((xs ++ ys).map Chunk.addr) ∧ ∀ d ∈ xs ++ ys, d.Sound p s'.mem := by
  have others (d : Chunk) (hd : d ∈ xs ++ ys) : d ∈ xs ++ c :: ys :=
    List.perm_middle.mem_iff.mpr (List.mem_cons_of_mem c hd)
  have chain := holds.chain
  rcases List.eq_nil_or_concat' xs with rfl | ⟨xs, e, rfl⟩
  · exact ⟨chain.2.2, fun d hd => holds.sound d (others d hd)⟩
  · obtain ⟨last, some, prev⟩ := holds.unlink_behind
    have does : s.unlinkChunk e.addr c.addr = s.setNext e.addr (s.mem c.addr).next := if_neg some
    rw [prev, does]
    refine ⟨?_, fun d hd => holds.sound_setNext last (others d hd)⟩
    have far (d : Chunk) (hd : d ∈ xs ++ ys) : d.addr ≠ e.addr := by
      have far := holds.far
      rw [List.append_assoc] at far
      have away : d.Far p e := by
        obtain ⟨-, behind, before⟩ := List.pairwise_append.mp far
        rcases List.mem_append.mp hd with hd | hd
        · exact before d hd e List.mem_cons_self
        · refine ((List.pairwise_cons.mp behind).1 d ?_).symm
          exact List.mem_cons_of_mem c hd
      have away : d.addr + p.chunk ≤ e.addr ∨ e.addr + p.chunk ≤ d.addr := away
      have room := (holds.sound e last).room
      omega
    have same (d : Chunk) (hd : d ∈ xs ++ ys) :
        ((s.setNext e.addr (s.mem c.addr).next).mem d.addr).next = (s.mem d.addr).next :=
      congrArg Cell.next (update_of_ne (far d hd) ..)
    have link : ((s.setNext e.addr (s.mem c.addr).next).mem e.addr).next = (s.mem c.addr).next := by
      show (update s.mem e.addr _ e.addr).next = _
      rw [update_self]
    rw [List.append_assoc, List.map_append] at chain ⊢
    refine chain.behind (fun x hx => ?_) ?_
    · obtain ⟨d, hd, rfl⟩ := List.mem_map.mp hx
      exact same d (List.mem_append_left ys hd)
    · rw [link]
      have rest : Chain s.mem (s.mem c.addr).next (ys.map Chunk.addr) := by
        have whole : Chain s.mem _ ([] ++ c.addr :: ys.map Chunk.addr) := chain.rest
        exact whole.rest
      refine rest.frame fun x hx => ?_
      obtain ⟨d, hd, rfl⟩ := List.mem_map.mp hx
      exact same d (List.mem_append_right xs hd)

/-- The counts with a chunk less. -/
def State.withoutChunk (p : Params) (s : State) : State :=
  { s with
    extraChks := s.extraChks - 1
    freeNoChk := 0
    sysFreeCalls := s.sysFreeCalls + 1
    totalAvailable := s.totalAvailable - p.granularity
    memoryOverhead := s.memoryOverhead - UInt32.ofNat OVERHEAD }

/-- `rt_free_sysrq_handler` gives a chunk back of which nothing is in use, or none. -/
theorem rtFreeSysrqHandler_spec (room : OVERHEAD ≤ p.chunk) (holds : s.Holds p cs) :
    ∃ s' out, s.rtFreeSysrqHandler p = some (s', out) ∧
      ((out = none ∧ s'.Holds p cs ∧ (s.extraChks > 0 → ∀ c ∈ cs, c ≠ .unused p c.addr) ∧
          s' = { s with freeNoChk := 0 }) ∨
        ∃ xs chk ys, cs = xs ++ Chunk.unused p chk :: ys ∧ out = some chk ∧
          s'.Holds p (xs ++ ys) ∧ s.Keeps p cs s' ∧
          ∃ mem list, s' = { s.withoutChunk p with mem := mem, chkList := list }) := by
  by_cases extra : s.extraChks > 0
  · rcases findFree_spec 0 room holds.sound holds.chain (holds.enough room) with
      ⟨none, nothing⟩ | ⟨xs, chk, ys, rfl, found⟩
    · refine ⟨{ s with freeNoChk := 0 }, .none, ?_, .inl ⟨rfl, ?_, fun _ => nothing, rfl⟩⟩
      · rw [State.rtFreeSysrqHandler, if_pos extra, none]
        rfl
      · exact holds.frame (fun _ _ _ _ _ => rfl) rfl rfl rfl
    · obtain ⟨chain, sound⟩ := holds.unlink
      let s₁ := s.unlinkChunk ((xs.map Chunk.addr).getLastD 0) chk
      refine ⟨{ s₁ with
          extraChks := s₁.extraChks - 1
          freeNoChk := 0
          sysFreeCalls := s₁.sysFreeCalls + 1
          totalAvailable := s₁.totalAvailable - p.granularity
          memoryOverhead := s₁.memoryOverhead - UInt32.ofNat OVERHEAD }, some chk, ?_,
        .inr ⟨xs, chk, ys, rfl, rfl, ⟨chain, sound, ?_, ?_, ?_⟩, ?_, ?_⟩⟩
      · rw [State.rtFreeSysrqHandler, if_pos extra, found]
        rfl
      · have far := holds.far
        rw [List.pairwise_append, List.pairwise_cons] at far
        refine List.pairwise_append.mpr ⟨far.1, far.2.1.2, fun d hd e he => ?_⟩
        exact far.2.2 d hd e (List.mem_cons_of_mem _ he)
      · have rest : s₁.memoryOverhead = s.memoryOverhead := unlinkChunk_rest.1
        have overhead := holds.overhead
        have weight : (Chunk.unused p chk).weight = OVERHEAD := rfl
        simp only [List.map_append, List.map_cons, List.sum_append, List.sum_cons,
          UInt32.ofNat_add, weight] at overhead ⊢
        rw [rest, overhead]
        grind
      · have rest : s₁.memoryLeak = s.memoryLeak := unlinkChunk_rest.2
        have leak := holds.leak
        rw [allocated_unused] at leak
        exact rest.trans leak
      · exact holds.unlink_keeps
      · show ∃ mem list, { s₁.withoutChunk p with mem := s₁.mem } = _
        have same : ∃ list, s₁ = { s with mem := s₁.mem, chkList := list } := unlinkChunk_same
        obtain ⟨list, same⟩ := same
        rw [same]
        exact ⟨_, _, rfl⟩
  · refine ⟨{ s with freeNoChk := 0 }, none, if_neg extra,
      .inl ⟨rfl, ?_, fun h => absurd h extra, rfl⟩⟩
    exact holds.frame (fun _ _ _ _ _ => rfl) rfl rfl rfl

/-! ## Writes of the application -/

/-- Only the headers matter. -/
theorem Laid.headers (same : ∀ f k, (f + BLKHDR, k) ∈ areas BLKHDR a ts → m' f = m f)
    (laid : Laid m b a ts) : Laid m' b a ts := by
  induction ts generalizing a with
  | nil => trivial
  | cons t ts ih =>
      have here : m' a = m a := same a t.size List.mem_cons_self
      refine ⟨?_, ?_, ?_, ih (fun f k mem => same f k (List.mem_cons_of_mem _ mem)) laid.2.2.2⟩
      · rw [here]
        exact laid.1
      · rw [here]
        exact laid.2.1
      · rw [here]
        exact laid.2.2.1

/-- A cell outside the chunk, or in a block in use. -/
def Chunk.Away (p : Params) (c : Chunk) (x : Nat) : Prop :=
  (x < c.addr ∨ c.addr + p.chunk ≤ x) ∨ ∃ q n, (q, n) ∈ c.blocks ∧ q ≤ x ∧ x < q + n

theorem Chunk.Sound.write {x : Nat} (sound : c.Sound p m) (away : c.Away p x) :
    c.Sound p (update m x v) ∧ x ≠ c.addr := by
  have room := sound.room
  have before := c.addr_lt_start
  rcases away with out | ⟨q, n, mem, low, high⟩
  · refine ⟨sound.frame (fun y low high => update_of_ne (by omega) ..)
      ⟨(m c.addr).next, update_of_ne (by omega) ..⟩, by omega⟩
  · have inside := (sound.block mem).1
    have other : c.addr ≠ x := by
      unfold OVERHEAD CHKHDR BLKHDR at inside
      omega
    refine ⟨?_, other.symm⟩
    have header : update m x v c.addr = m c.addr := update_of_ne other ..
    exact {
      positive := sound.positive
      below := sound.below
      chkAddr := by
        rw [header]
        exact sound.chkAddr
      limit := by
        rw [header]
        exact sound.limit
      freeList := by
        rw [header]
        exact sound.freeList
      laid := by
        refine sound.laid.headers fun f k area => update_of_ne ?_ ..
        have apart := sound.fill.behind.apart (blocks_subset mem) area
        unfold BLKHDR at apart
        omega
      fill := sound.fill
      apart := sound.apart }

/-- What the application writes is no matter. -/
theorem State.Holds.write {x : Nat} (holds : s.Holds p cs) (away : ∀ c ∈ cs, c.Away p x) :
    State.Holds p { s with mem := update s.mem x v } cs where
  chain := by
    refine holds.chain.frame fun y hy => ?_
    obtain ⟨c, hc, rfl⟩ := List.mem_map.mp hy
    exact congrArg Cell.next (update_of_ne ((holds.sound c hc).write (v := v) (away c hc)).2.symm ..)
  sound := fun c hc => ((holds.sound c hc).write (away c hc)).1
  far := holds.far
  overhead := holds.overhead
  leak := holds.leak

end Rtai.Heap
