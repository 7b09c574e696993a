import Rtai.Heap.Sizes

/-!
# Freeing twice

`rt_free` takes a block for one in use if its header points to itself.  A block that is
linked into the free list points elsewhere, and one that is joined with the block before
it keeps its header: a second `rt_free` of it is accepted.  A ledger of the blocks that
have been freed and not handed out again says which are which; `freed_twice` holds in
every run.
-/

namespace Rtai.Heap

open Function Rtai.Lib

/-- A block that has been freed. -/
structure Freed where
  addr : Nat
  /-- It was joined with the free block before it, and its header is as it was. -/
  joined : Bool
deriving DecidableEq

namespace Freed

def header (x : Freed) : Nat := x.addr - BLKHDR

/-- `n` bytes at `q` are handed out, and what is left of the free block gets a header. -/
def handOut (q n : Nat) (x : Freed) : Option Freed :=
  if q - BLKHDR ≤ x.header ∧ x.header < q + n then none
  else some { x with joined := x.joined && x.header ≠ q + n }

/-- A chunk is given back. -/
def giveBack (p : Params) (chk : Nat) (x : Freed) : Option Freed :=
  if chk ≤ x.header ∧ x.header < chk + p.chunk then none else some x

end Freed

/-- There is a free block right before the block at `addr`. -/
def Machine.joins (addr : Nat) (M : Machine) : Bool :=
  M.size (addr - BLKHDR) ≠ 0 &&
    M.state.freeBlocks.any fun blk => blk + BLKHDR + M.size blk = addr - BLKHDR

/-- The heap and the blocks that have been freed and not handed out again. -/
structure Ledger where
  machine : Machine
  freed : List Freed := []

namespace Ledger

/-- `rt_malloc` has returned `memPtr`. -/
def handOut (memPtr size : Nat) (L : Ledger) : List Freed :=
  if memPtr = 0 then L.freed else L.freed.filterMap (Freed.handOut memPtr (State.roundUp size))

/-- `rt_free_sysrq_handler` has given a chunk back, or none. -/
def giveBack (p : Params) (given : Option Nat) (L : Ledger) : List Freed :=
  given.elim L.freed fun chk => L.freed.filterMap (Freed.giveBack p chk)

/-- `rt_free` has been given a block. -/
def takeBack (addr : Nat) (L : Ledger) : List Freed :=
  if ∃ x ∈ L.machine.live, x.1 = addr then ⟨addr, L.machine.joins addr⟩ :: L.freed else L.freed

/-- The blocks that are freed after the step. -/
def record (p : Params) (L : Ledger) : Event → Option (List Freed)
  | .malloc size => do
      let (_, memPtr) ← L.machine.state.rtMalloc p size
      return L.handOut memPtr size
  | .free addr => some (L.takeBack addr)
  | .freeSysrq => do
      let (_, given) ← L.machine.state.rtFreeSysrqHandler p
      return L.giveBack p given
  | _ => some L.freed

def step (p : Params) (e : Event) (L : Ledger) : Option Ledger := do
  let M ← L.machine.step p e
  let freed ← L.record p e
  return { machine := M, freed := freed }

/-- A block is freed again only if it is not joined. -/
def Allowed (p : Params) (L : Ledger) : Event → Prop
  | .free addr => (∃ x ∈ L.machine.live, x.1 = addr) ∨ ⟨addr, false⟩ ∈ L.freed
  | e => L.machine.Allowed p e

end Ledger

/-- The free lists and the accounts are as they were. -/
structure State.Unchanged (s s' : State) : Prop where
  blocks : s'.freeBlocks = s.freeBlocks
  sizes : ∀ blk ∈ s.freeBlocks, (s'.mem blk).size = (s.mem blk).size
  memoryLeak : s'.memoryLeak = s.memoryLeak
  memoryOverhead : s'.memoryOverhead = s.memoryOverhead
  totalAvailable : s'.totalAvailable = s.totalAvailable
  maxAllocated : s'.maxAllocated = s.maxAllocated

/-- `rt_free` of the address changes nothing. -/
def State.Harmless (p : Params) (addr : Nat) (s : State) : Prop :=
  ∃ s', s.rtFree p addr = some s' ∧ s.Unchanged s'

variable {p : Params} {m m' : Memory} {s s' : State} {a q n : Nat} {x : Freed} {c c' : Chunk}
  {cs xs ys : List Chunk} {ts ts' : List Tile}

/-! ## What a second `rt_free` does -/

/-- A free block does not point to itself. -/
theorem Laid.free_next {chk f k : Nat} (laid : Laid m chk a ts) (fill : Fill a ts n)
    (positive : 0 < a) (free : (f, k) ∈ frees BLKHDR a ts) : (m f).next ≠ f := by
  induction ts generalizing a with
  | nil => cases free
  | cons t ts ih =>
      have low := lt_span a t
      rw [frees] at free
      split at free
      · exact ih laid.2.2.2 fill.2.2 (Nat.lt_trans positive low) free
      next unused =>
        rcases List.mem_cons.mp free with here | behind
        · obtain ⟨rfl, -⟩ := Prod.mk.inj here
          rw [laid.2.2.1, if_neg unused]
          intro self
          have range := firstFree_range fill.2.2 (by omega)
          omega
        · exact ih laid.2.2.2 fill.2.2 (Nat.lt_trans positive low) behind

theorem State.Unchanged.refl : s.Unchanged s := ⟨rfl, fun _ _ => rfl, rfl, rfl, rfl, rfl⟩

theorem rtFree_unlinked (unlinked : (s.mem (q - BLKHDR)).next ≠ q - BLKHDR) :
    s.Harmless p q :=
  ⟨s, if_pos (.inr (.inl unlinked)), .refl⟩

/-- The header is one that `rt_free` accepts. -/
structure Accepted (p : Params) (m : Memory) (chk blk : Nat) : Prop where
  chkAddr : (m blk).chkAddr = chk
  next : (m blk).next = blk
  some : 0 < (m blk).size
  fits : (m blk).size ≤ lessOverhead p.chunk
  multiple : (m blk).size % MINSIZE = 0

/-- A block that is accepted is counted as freed. -/
theorem Accepted.not_harmless (sound : c.Sound p s.mem)
    (accepted : Accepted p s.mem c.addr (q - BLKHDR)) : ¬s.Harmless p q := by
  rintro ⟨s', does, same⟩
  have valid : ¬((s.mem (q - BLKHDR)).chkAddr ≠ (s.mem (s.mem (q - BLKHDR)).chkAddr).chkAddr ∨
      (s.mem (q - BLKHDR)).next ≠ q - BLKHDR ∨ (s.mem (q - BLKHDR)).size = 0 ∨
      (s.mem (q - BLKHDR)).size > lessOverhead p.chunk ∨
      (s.mem (q - BLKHDR)).size % MINSIZE ≠ 0) := by
    rw [accepted.chkAddr, sound.chkAddr, accepted.next, accepted.multiple]
    have := accepted.some
    have := accepted.fits
    omega
  rw [State.rtFree, if_neg valid] at does
  obtain ⟨⟨prev, cur⟩, -, does⟩ := Option.bind_eq_some_iff.mp does
  let s₁ : State := { s with memoryLeak := s.memoryLeak - UInt32.ofNat (s.mem (q - BLKHDR)).size }
  have end_eq : s' = (s₁.merge (s.mem (q - BLKHDR)).chkAddr prev (q - BLKHDR)).pendFreeSysrq p :=
    (Option.some.inj does).symm
  have leak : s'.memoryLeak = s.memoryLeak - UInt32.ofNat (s.mem (q - BLKHDR)).size := by
    rw [end_eq, merge_leak, State.pendFreeSysrq]
    split
    · rfl
    · rfl
  have bound := p.chunk_lt
  have small : (s.mem (q - BLKHDR)).size < 2 ^ 32 := by
    have := accepted.fits
    unfold lessOverhead at this
    omega
  have none : UInt32.ofNat (s.mem (q - BLKHDR)).size = 0 := by
    have kept := leak.symm.trans same.memoryLeak
    grind
  have zero := congrArg UInt32.toNat none
  rw [UInt32.toNat_ofNat_of_lt' small] at zero
  exact absurd zero (Nat.ne_of_gt accepted.some)

/-! ## Where a freed block is -/

namespace Freed

/-- The block is in a free block of the chunk; its header is in order if it is joined, and
does not point to itself otherwise. -/
structure Rests (p : Params) (m : Memory) (c : Chunk) (x : Freed) : Prop where
  within : Within BLKHDR c.start c.tiles x.header MINSIZE
  unlinked : x.joined = false → (m x.header).next ≠ x.header
  hidden : x.joined = true → x.header ∉ headers BLKHDR c.start c.tiles
  accepted : x.joined = true → Accepted p m c.addr x.header

/-- A freed block is in a chunk, or it was never released for want of a byte. -/
def Placed (p : Params) (m : Memory) (cs : List Chunk) (x : Freed) : Prop :=
  (x.joined = false ∧ (x.addr, 0) ∈ allocated cs) ∨ ∃ c ∈ cs, x.Rests p m c

/-- The head of a free block does not point to itself. -/
theorem Rests.head (sound : c.Sound p m) (unjoined : x.joined = false)
    (within : Within BLKHDR c.start c.tiles x.header MINSIZE)
    (head : x.header ∈ headers BLKHDR c.start c.tiles) : x.Rests p m c := by
  obtain ⟨k, free⟩ := within.head blkhdr_pos sound.fill head
  have away := sound.laid.free_next sound.fill c.start_pos free
  have never {P : Prop} (joined : x.joined = true) : P := by
    rw [unjoined] at joined
    cases joined
  exact ⟨within, fun _ => away, never, never⟩

/-- The blocks of the chunk have changed, and cells that are no header have not. -/
theorem Rests.change (h : x.Rests p m c) (sound : c'.Sound p m') (addr : c'.addr = c.addr)
    (within : Within BLKHDR c'.start c'.tiles x.header MINSIZE)
    (same : x.header ∉ headers BLKHDR c'.start c'.tiles → m' x.header = m x.header)
    (hidden : x.joined = true → x.header ∉ headers BLKHDR c'.start c'.tiles) :
    x.Rests p m' c' := by
  by_cases head : x.header ∈ headers BLKHDR c'.start c'.tiles
  · refine .head sound ?_ within head
    exact Bool.eq_false_of_not_eq_true fun joined => hidden joined head
  · have same := same head
    refine ⟨within, ?_, hidden, ?_⟩
    · rw [same]
      exact h.unlinked
    · intro joined
      have old := h.accepted joined
      rw [addr]
      constructor
      · rw [same]
        exact old.chkAddr
      · rw [same]
        exact old.next
      · rw [same]
        exact old.some
      · rw [same]
        exact old.fits
      · rw [same]
        exact old.multiple

/-- Where the header is. -/
theorem Rests.inside (h : x.Rests p m c) (sound : c.Sound p m) :
    c.start ≤ x.header ∧ x.header + MINSIZE < c.addr + p.chunk := by
  obtain ⟨g, k, free, low, high⟩ := h.within
  have inside := sound.fill.area_inside (frees_subset free)
  have := blkhdr_pos
  omega

/-- Nothing has changed in the chunk. -/
theorem Rests.frame (h : x.Rests p m c) (sound : c.Sound p m) (sound' : c.Sound p m')
    (same : ∀ a, c.start ≤ a → a < c.addr + p.chunk → m' a = m a) : x.Rests p m' c := by
  obtain ⟨low, high⟩ := h.inside sound
  exact h.change sound' rfl h.within (fun _ => same x.header low (by omega)) h.hidden

variable {b : Nat}

/-- A request is served from the chunk, and not from where the block is. -/
theorem Rests.take {req : Nat} (h : x.Rests p s.mem c) (sound : c.Sound p s.mem)
    (taken : take BLKHDR MINSIZE req c.start c.tiles = some (b, ts'))
    (reshaped : Reshaped s s' c.addr 0 c.start (c.addr + p.chunk) c.tiles ts')
    (sound' : Chunk.Sound p s'.mem ⟨c.addr, ts'⟩)
    (out : ¬(b ≤ x.header ∧ x.header < b + BLKHDR + req)) :
    ({ x with joined := x.joined && x.header ≠ b + BLKHDR + req } : Freed).Rests p s'.mem
      ⟨c.addr, ts'⟩ := by
  obtain ⟨low, high⟩ := h.inside sound
  have same (other : x.header ∉ headers BLKHDR c.start ts') : s'.mem x.header = s.mem x.header :=
    reshaped.kept x.header low (by omega) other
  obtain ⟨g, k, free, below, above⟩ := h.within
  have left := take_frees blkhdr_pos taken free
  have within : Within BLKHDR c.start ts' x.header MINSIZE := by
    rcases left with ⟨-, free'⟩ | ⟨rfl, room, rest⟩
    · exact ⟨g, k, free', below, above⟩
    · have rest := rest (by omega)
      exact ⟨_, _, rest, by omega, by omega⟩
  by_cases joined : x.joined = true
  · by_cases here : x.header = b + BLKHDR + req
    · refine .head sound' (by simp [here]) within ?_
      rcases left with ⟨other, -⟩ | ⟨rfl, room, rest⟩
      · -- the block cannot be in another free block and right behind this one
        obtain ⟨n, chosen, large⟩ := take_free taken
        have apart := sound.fill.behind.apart (frees_subset free) (frees_subset chosen)
          fun e => other (Nat.add_right_cancel e)
        have hidden := h.hidden joined
        have first : g ≠ x.header := by
          rintro rfl
          exact hidden (mem_headers.mpr ⟨k, frees_subset free⟩)
        have := blkhdr_pos
        omega
      · have rest := rest (by omega)
        rw [← here] at rest
        exact mem_headers.mpr ⟨_, frees_subset rest⟩
    · have e : ({ x with joined := x.joined && x.header ≠ b + BLKHDR + req } : Freed) = x := by
        simp [here]
      rw [e]
      refine h.change sound' rfl within same fun _ mem => ?_
      exact (headers_take taken x.header mem).elim (h.hidden joined) here
  · have unjoined := Bool.eq_false_of_not_eq_true joined
    have e : ({ x with joined := x.joined && x.header ≠ b + BLKHDR + req } : Freed) = x := by
      obtain ⟨addr, joined⟩ := x
      cases unjoined
      rfl
    rw [e]
    exact h.change sound' rfl within same fun j => absurd j joined

/-- Another block of the chunk is freed. -/
theorem Rests.release (h : x.Rests p s.mem c) (sound : c.Sound p s.mem)
    (reshaped : Reshaped s s' c.addr 0 c.start (c.addr + p.chunk) c.tiles
      (release BLKHDR b c.start c.tiles))
    (sound' : Chunk.Sound p s'.mem ⟨c.addr, Lib.release BLKHDR b c.start c.tiles⟩) :
    x.Rests p s'.mem ⟨c.addr, Lib.release BLKHDR b c.start c.tiles⟩ := by
  obtain ⟨low, high⟩ := h.inside sound
  refine h.change sound' rfl h.within.release (reshaped.kept x.header low (by omega)) ?_
  exact fun joined mem => h.hidden joined (headers_release x.header mem)

/-- The block itself is freed. -/
theorem Rests.freed (room : OVERHEAD ≤ p.chunk) (sound : c.Sound p s.mem)
    (mem : (q, n) ∈ c.blocks) (some : 0 < n)
    (reshaped : Reshaped s s' c.addr 0 c.start (c.addr + p.chunk) c.tiles
      (Lib.release BLKHDR (q - BLKHDR) c.start c.tiles))
    (sound' : Chunk.Sound p s'.mem ⟨c.addr, Lib.release BLKHDR (q - BLKHDR) c.start c.tiles⟩)
    (joined : Bool) (touches : joined = true ↔
      ∃ f k, (f, k) ∈ frees BLKHDR c.start c.tiles ∧ f + BLKHDR + k = q - BLKHDR) :
    (⟨q, joined⟩ : Freed).Rests p s'.mem
      ⟨c.addr, Lib.release BLKHDR (q - BLKHDR) c.start c.tiles⟩ := by
  obtain ⟨low, high⟩ := sound.block mem
  have multiple := sound.fill.block_size mem
  have back : q - BLKHDR + BLKHDR = q := by
    unfold OVERHEAD at low
    omega
  have block : (q - BLKHDR + BLKHDR, n) ∈ blocks BLKHDR c.start c.tiles := by rwa [back]
  have large : MINSIZE ≤ n := Nat.le_of_dvd some multiple
  have within : Within BLKHDR c.start (Lib.release BLKHDR (q - BLKHDR) c.start c.tiles)
      (q - BLKHDR) MINSIZE :=
    (Within.freed blkhdr_pos block).trans (Nat.le_refl _) (Nat.add_le_add_left large _)
  cases joined with
  | false =>
      have apart (f k : Nat) (free : (f, k) ∈ frees BLKHDR c.start c.tiles) :
          f + BLKHDR + k ≠ q - BLKHDR :=
        fun e => Bool.false_ne_true (touches.mpr ⟨f, k, free, e⟩)
      obtain ⟨k, free, -⟩ := release_head blkhdr_pos block apart
      exact .head sound' rfl within (mem_headers.mpr ⟨k, frees_subset free⟩)
  | true =>
      obtain ⟨f, k, free, e⟩ := touches.mp rfl
      obtain ⟨g, j, free', below, above⟩ := Within.freed_joined blkhdr_pos block free e
      have hidden : q - BLKHDR ∉ headers BLKHDR c.start
          (Lib.release BLKHDR (q - BLKHDR) c.start c.tiles) := by
        intro head
        obtain ⟨i, first⟩ := within.head blkhdr_pos sound'.fill head
        have := blkhdr_pos
        have apart := sound'.fill.behind.apart (frees_subset free') (frees_subset first) (by omega)
        omega
      have start : c.start = c.addr + CHKHDR := rfl
      have same : s'.mem (q - BLKHDR) = s.mem (q - BLKHDR) := by
        unfold OVERHEAD at low
        exact reshaped.kept _ (by omega) (by omega) hidden
      obtain ⟨chkAddr, size, next⟩ := sound.laid.block mem
      have e := lessOverhead_eq room p.chunk_lt
      have never {P : Prop} (joined : true = false) : P := by cases joined
      refine ⟨within, never, fun _ => hidden, fun _ => ?_⟩
      show Accepted p s'.mem c.addr (q - BLKHDR)
      constructor
      · rw [same, chkAddr]
      · rw [same, next]
      · rw [same, size]
        exact some
      · rw [same, size, e]
        omega
      · rw [same, size]
        exact Nat.mod_eq_zero_of_dvd multiple

theorem Placed.frame (sound : ∀ c ∈ cs, c.Sound p m) (sound' : ∀ c ∈ cs, c.Sound p m')
    (same : ∀ c ∈ cs, ∀ a, c.start ≤ a → a < c.addr + p.chunk → m' a = m a)
    (h : x.Placed p m cs) : x.Placed p m' cs := by
  refine h.imp_right ?_
  intro ⟨c, hc, rests⟩
  exact ⟨c, hc, rests.frame (sound c hc) (sound' c hc) (same c hc)⟩

end Freed

/-! ## Runs -/

namespace Ledger

variable {L L' : Ledger} {lost : List Nat} {e : Event} {M : Machine}

/-- Every freed block is where it was freed. -/
structure Ok (p : Params) (L : Ledger) (cs : List Chunk) (lost : List Nat) : Prop where
  valid : L.machine.Valid p cs lost
  freed : ∀ x ∈ L.freed, x.Placed p L.machine.state.mem cs

theorem step_eq {freed : List Freed} (stepped : L.machine.step p e = some M)
    (recorded : L.record p e = some freed) : L.step p e = some ⟨M, freed⟩ := by
  rw [step, stepped, recorded]
  rfl

namespace Ok

section

variable (room : OVERHEAD ≤ p.chunk)
include room

/-- The blocks of one chunk have changed, and those freed in it are still placed. -/
theorem reshape (holds : s.Holds p (xs ++ c :: ys)) {s₁ : State}
    (holds' : s'.Holds p (xs ++ (⟨c.addr, ts'⟩ : Chunk) :: ys)) (mem : s'.mem = s₁.mem)
    (reshaped : Reshaped s s₁ c.addr 0 c.start (c.addr + p.chunk) c.tiles ts') {y : Freed}
    (placed : x.Placed p s.mem (xs ++ c :: ys)) (unused : x.joined = false → y = x)
    (elsewhere : ∀ d ∈ xs ++ ys, x.Rests p s.mem d → y = x)
    (here : x.Rests p s.mem c → y.Rests p s₁.mem ⟨c.addr, ts'⟩)
    (kept : (x.addr, 0) ∈ allocated (xs ++ c :: ys) →
      (x.addr, 0) ∈ allocated (xs ++ (⟨c.addr, ts'⟩ : Chunk) :: ys)) :
    y.Placed p s'.mem (xs ++ (⟨c.addr, ts'⟩ : Chunk) :: ys) := by
  rcases placed with ⟨unjoined, nothing⟩ | ⟨d, hd, rests⟩
  · rw [unused unjoined]
    exact .inl ⟨unjoined, kept nothing⟩
  · rcases List.mem_cons.mp (List.perm_middle.mem_iff.mp hd) with rfl | others
    · rw [mem]
      exact .inr ⟨_, List.mem_append_right xs List.mem_cons_self, here rests⟩
    · have hd' : d ∈ xs ++ (⟨c.addr, ts'⟩ : Chunk) :: ys :=
        List.perm_middle.mem_iff.mpr (List.mem_cons_of_mem _ others)
      rw [elsewhere d others rests]
      refine .inr ⟨d, hd', rests.frame (holds.sound d hd) (holds'.sound d hd') ?_⟩
      intro a low high
      rw [mem]
      refine holds.elsewhere room reshaped others (Nat.le_trans ?_ low) high
      exact Nat.le_of_lt d.addr_lt_start

/-- A request is refused or served. -/
theorem malloc (ok : L.Ok p cs lost) (n : Nat) :
    ∃ L' cs', L.step p (.malloc n) = some L' ∧ L'.Ok p cs' lost := by
  rcases ok.valid.malloc_cases room n with ⟨s, does, mem, valid⟩ |
      ⟨xs, c, ys, b, ts', s', s, rfl, -, taken, does, mem, reshaped, valid⟩
  · have same : L.record p (.malloc n) = some L.freed := by
      rw [record, does]
      rfl
    have stepped : L.machine.step p (.malloc n) = some { L.machine with state := s } := by
      rw [Machine.step, does]
      rfl
    refine ⟨_, cs, step_eq stepped same, valid, ?_⟩
    intro x hx
    show x.Placed p s.mem cs
    rw [mem]
    exact ok.freed x hx
  · have found : b + BLKHDR ≠ 0 := Nat.ne_of_gt (Nat.add_pos_right b blkhdr_pos)
    have left : L.record p (.malloc n) =
        some (L.freed.filterMap (Freed.handOut (b + BLKHDR) (State.roundUp n))) := by
      rw [record, does]
      exact congrArg some (if_neg found)
    have stepped : L.machine.step p (.malloc n) =
        some { L.machine with state := s, live := (b + BLKHDR, n) :: L.machine.live } := by
      rw [Machine.step, does]
      exact congrArg (fun live => some { L.machine with state := s, live := live }) (if_neg found)
    have inside : ⟨c.addr, ts'⟩ ∈ xs ++ (⟨c.addr, ts'⟩ : Chunk) :: ys :=
      List.mem_append_right xs List.mem_cons_self
    have holds' : s.Holds p (xs ++ (⟨c.addr, ts'⟩ : Chunk) :: ys) := valid.holds
    have sound' := holds'.sound _ inside
    have block : (b + BLKHDR, State.roundUp n) ∈ Chunk.blocks ⟨c.addr, ts'⟩ :=
      (blocks_take taken).mem_iff.mpr List.mem_cons_self
    have bounds := sound'.block block
    have more : (allocated (xs ++ (⟨c.addr, ts'⟩ : Chunk) :: ys)).Perm
        ((b + BLKHDR, State.roundUp n) :: allocated (xs ++ c :: ys)) :=
      allocated_more (blocks_take taken)
    refine ⟨_, _, step_eq stepped left, valid, ?_⟩
    intro y hy
    obtain ⟨x, hx, out⟩ := List.mem_filterMap.mp hy
    rw [Freed.handOut, Nat.add_sub_cancel] at out
    split at out
    next => cases out
    next away =>
      cases out
      refine reshape room ok.valid.holds holds' mem reshaped (ok.freed x hx) ?_ ?_ ?_ ?_
      · intro unjoined
        obtain ⟨addr, joined⟩ := x
        cases unjoined
        rfl
      · intro d hd rests
        have far : d.addr + p.chunk ≤ c.addr ∨ c.addr + p.chunk ≤ d.addr :=
          ok.valid.holds.apart d hd
        have old : d ∈ xs ++ c :: ys :=
          List.perm_middle.mem_iff.mpr (List.mem_cons_of_mem c hd)
        obtain ⟨low, high⟩ := rests.inside (ok.valid.holds.sound d old)
        have start := d.addr_lt_start
        have other : x.header ≠ b + BLKHDR + State.roundUp n := by
          have low' : c.addr + OVERHEAD ≤ b + BLKHDR := bounds.1
          have high' : b + BLKHDR + State.roundUp n ≤ c.addr + p.chunk := bounds.2
          omega
        simp [other]
      · intro rests
        have sound := ok.valid.holds.sound c (List.mem_append_right xs List.mem_cons_self)
        rw [mem] at sound'
        exact rests.take sound taken reshaped sound' away
      · exact fun nothing => more.mem_iff.mpr (List.mem_cons_of_mem _ nothing)

/-- The test that `rt_free` makes is one of the free blocks of the chunk. -/
theorem joins_iff (valid : L.machine.Valid p cs lost) (hc : c ∈ cs) (block : (q, n) ∈ c.blocks)
    (some : 0 < n) : L.machine.joins q = true ↔
      ∃ f k, (f, k) ∈ frees BLKHDR c.start c.tiles ∧ f + BLKHDR + k = q - BLKHDR := by
  have holds := valid.holds
  have size : L.machine.size (q - BLKHDR) = n := ((holds.sound c hc).laid.block block).2.1
  have bounds := (holds.sound c hc).block block
  have start : c.start = c.addr + CHKHDR := rfl
  simp only [Machine.joins, size, Bool.and_eq_true, decide_eq_true_eq, List.any_eq_true]
  constructor
  · rintro ⟨-, blk, free, touches⟩
    obtain ⟨d, hd, free⟩ := (holds.mem_freeBlocks room).mp free
    have inside := (holds.sound d hd).fill.area_inside (frees_subset free)
    have start' : d.start = d.addr + CHKHDR := rfl
    have touches : blk + BLKHDR + (L.machine.state.mem blk).size = q - BLKHDR := touches
    unfold OVERHEAD at bounds
    rcases holds.far_or_same hd hc with rfl | far
    · exact ⟨blk, _, free, touches⟩
    · have far : d.addr + p.chunk ≤ c.addr ∨ c.addr + p.chunk ≤ d.addr := far
      have := blkhdr_pos
      unfold CHKHDR at *
      omega
  · rintro ⟨f, k, free, touches⟩
    have same := (holds.sound c hc).laid.free free
    refine ⟨Nat.ne_of_gt some, f, (holds.mem_freeBlocks room).mpr ⟨c, hc, same.symm ▸ free⟩, ?_⟩
    show f + BLKHDR + (L.machine.state.mem f).size = q - BLKHDR
    rw [same]
    exact touches

/-- A block is freed, or not released for want of a byte. -/
theorem free (ok : L.Ok p cs lost) (mem : ∃ x ∈ L.machine.live, x.1 = q) :
    ∃ L' cs' lost', L.step p (.free q) = some L' ∧ L'.Ok p cs' lost' := by
  have recorded : L.record p (.free q) = some (⟨q, L.machine.joins q⟩ :: L.freed) :=
    congrArg some (if_pos mem)
  rcases ok.valid.free_cases room mem with ⟨does, -, nothing, valid⟩ |
      ⟨xs, c, ys, n, s', s, rfl, block, some, does, same, reshaped, valid⟩
  · have stepped : L.machine.step p (.free q) = some { L.machine with
        live := L.machine.live.eraseP fun x => x.1 = q } := by
      rw [Machine.step, does]
      rfl
    refine ⟨_, cs, _, step_eq stepped recorded, valid, ?_⟩
    intro x hx
    rcases List.mem_cons.mp hx with rfl | old
    · refine .inl ⟨?_, nothing⟩
      obtain ⟨c, hc, block⟩ := mem_allocated.mp nothing
      have size : L.machine.size (q - BLKHDR) = 0 :=
        ((ok.valid.holds.sound c hc).laid.block block).2.1
      simp [Machine.joins, size]
    · exact ok.freed x old
  · have stepped : L.machine.step p (.free q) = .some { L.machine with
        state := s
        live := L.machine.live.eraseP fun x => x.1 = q } := by
      rw [Machine.step, does]
      rfl
    have hc : c ∈ xs ++ c :: ys := List.mem_append_right xs List.mem_cons_self
    have sound := ok.valid.holds.sound c hc
    have holds' : s.Holds p (xs ++
        (⟨c.addr, release BLKHDR (q - BLKHDR) c.start c.tiles⟩ : Chunk) :: ys) := valid.holds
    have sound' := holds'.sound _ (List.mem_append_right xs List.mem_cons_self)
    rw [same] at sound'
    have less : (allocated (xs ++ c :: ys)).Perm ((q, n) :: allocated (xs ++
        (⟨c.addr, release BLKHDR (q - BLKHDR) c.start c.tiles⟩ : Chunk) :: ys)) :=
      (ok.valid.holds.release room block reshaped).2
    refine ⟨_, _, _, step_eq stepped recorded, valid, ?_⟩
    intro x hx
    rcases List.mem_cons.mp hx with rfl | old
    · show Freed.Placed p s.mem _ _
      rw [same]
      exact .inr ⟨_, List.mem_append_right xs List.mem_cons_self,
        .freed room sound block some reshaped sound' _ (joins_iff room ok.valid hc block some)⟩
    · refine reshape room ok.valid.holds holds' same reshaped (ok.freed x old)
        (fun _ => rfl) (fun _ _ _ => rfl) (fun rests => rests.release sound reshaped sound') ?_
      intro nothing
      rcases List.mem_cons.mp (less.mem_iff.mp nothing) with here | rest
      · exact absurd (Prod.mk.inj here).2 (Nat.ne_of_lt some)
      · exact rest

end

/-- Nothing is freed or handed out, and the chunks stay. -/
theorem steady (ok : L.Ok p cs lost) (keeps : L.machine.state.Keeps p cs M.state)
    {more : List Chunk} (valid : M.Valid p (cs ++ more) lost) :
    Ok p ⟨M, L.freed⟩ (cs ++ more) lost := by
  refine ⟨valid, fun x hx => ?_⟩
  have placed : x.Placed p M.state.mem cs := by
    refine (ok.freed x hx).frame ok.valid.holds.sound (fun c hc => ?_) keeps
    exact valid.holds.sound c (List.mem_append_left more hc)
  rcases placed with ⟨unjoined, nothing⟩ | ⟨c, hc, rests⟩
  · refine .inl ⟨unjoined, ?_⟩
    obtain ⟨c, hc, block⟩ := mem_allocated.mp nothing
    exact mem_allocated.mpr ⟨c, List.mem_append_left more hc, block⟩
  · exact .inr ⟨c, List.mem_append_left more hc, rests⟩

/-- A chunk goes, and the blocks that were freed in it. -/
theorem freeSysrq (room : OVERHEAD ≤ p.chunk) (ok : L.Ok p cs lost) :
    ∃ L' cs', L.step p .freeSysrq = some L' ∧ L'.Ok p cs' lost := by
  rcases ok.valid.freeSysrq_cases room with ⟨s, does, mem, valid⟩ |
      ⟨xs, chk, ys, s, rfl, does, keeps, valid⟩
  · have stepped : L.machine.step p .freeSysrq = some { L.machine with state := s } := by
      rw [Machine.step, does]
      rfl
    have recorded : L.record p .freeSysrq = some L.freed := by
      rw [record, does]
      rfl
    refine ⟨_, cs, step_eq stepped recorded, valid, fun x hx => ?_⟩
    show x.Placed p s.mem cs
    rw [mem]
    exact ok.freed x hx
  · have stepped : L.machine.step p .freeSysrq = some { L.machine with
        state := s
        chunks := L.machine.chunks.erase chk } := by
      rw [Machine.step, does]
      rfl
    have recorded : L.record p .freeSysrq =
        some (L.freed.filterMap (Freed.giveBack p chk)) := by
      rw [record, does]
      rfl
    have holds' : s.Holds p (xs ++ ys) := valid.holds
    refine ⟨_, _, step_eq stepped recorded, valid, fun y hy => ?_⟩
    obtain ⟨x, hx, out⟩ := List.mem_filterMap.mp hy
    rw [Freed.giveBack] at out
    split at out
    next => cases out
    next away =>
      cases out
      rcases ok.freed y hx with ⟨unjoined, nothing⟩ | ⟨d, hd, rests⟩
      · rw [allocated_unused] at nothing
        exact .inl ⟨unjoined, nothing⟩
      · have sound := ok.valid.holds.sound d hd
        rcases List.mem_cons.mp (List.perm_middle.mem_iff.mp hd) with rfl | others
        · obtain ⟨low, high⟩ := rests.inside sound
          have start : (Chunk.unused p chk).start = chk + CHKHDR := rfl
          have high : y.header + MINSIZE < chk + p.chunk := high
          exact absurd ⟨by omega, by omega⟩ away
        · exact .inr ⟨d, others, rests.frame sound (holds'.sound d others) (keeps d hd)⟩

/-- Nobody writes to a block that is free. -/
theorem write {cell : Cell} (ok : L.Ok p cs lost)
    (allowed : L.machine.Allowed p (.write a cell)) :
    ∃ L', L.step p (.write a cell) = some L' ∧ L'.Ok p cs lost := by
  obtain ⟨M', stepped, valid, -⟩ := ok.valid.write allowed
  cases stepped
  refine ⟨_, rfl, valid, fun x hx => ?_⟩
  rcases ok.freed x hx with nothing | ⟨c, hc, rests⟩
  · exact .inl nothing
  · have sound := ok.valid.holds.sound c hc
    have other : x.header ≠ a := by
      obtain ⟨low, high⟩ := rests.inside sound
      have start := c.addr_lt_start
      rcases allowed with ⟨z, hz, below, above⟩ | outside
      · obtain ⟨d, hd, block⟩ := ok.valid.block hz
        have bounds := (ok.valid.holds.sound d hd).block block
        rcases ok.valid.holds.far_or_same hc hd with rfl | far
        · obtain ⟨g, k, free, under, above⟩ := rests.within
          have apart := sound.fill.behind.apart (blocks_subset block) (frees_subset free)
            (blocks_frees blkhdr_pos block free)
          have := blkhdr_pos
          omega
        · have far : c.addr + p.chunk ≤ d.addr ∨ d.addr + p.chunk ≤ c.addr := far
          omega
      · have outside := outside c.addr (by
          rw [ok.valid.chunks]
          exact List.mem_map.mpr ⟨c, hc, rfl⟩)
        omega
    have same : update L.machine.state.mem a cell x.header = L.machine.state.mem x.header :=
      update_of_ne other ..
    exact .inr ⟨c, hc, rests.change (valid.holds.sound c hc) rfl rests.within (fun _ => same)
      rests.hidden⟩

/-- What a second `rt_free` does. -/
theorem harmless (ok : L.Ok p cs lost) (hx : x ∈ L.freed) :
    L.machine.state.Harmless p x.addr ↔ x.joined = false := by
  rcases ok.freed x hx with ⟨unjoined, nothing⟩ | ⟨c, hc, rests⟩
  · obtain ⟨c, hc, block⟩ := mem_allocated.mp nothing
    exact iff_of_true ⟨_, rtFree_empty (ok.valid.holds.sound c hc) block, .refl⟩ unjoined
  · cases joined : x.joined with
    | false => exact iff_of_true (rtFree_unlinked (rests.unlinked joined)) rfl
    | true =>
        have accepted := rests.accepted joined
        exact iff_of_false (accepted.not_harmless (ok.valid.holds.sound c hc)) (by decide)

/-- A block that is freed again without harm: nothing changes. -/
theorem again (ok : L.Ok p cs lost) (new : ¬∃ x ∈ L.machine.live, x.1 = q)
    (hx : ⟨q, false⟩ ∈ L.freed) : L.step p (.free q) = some L := by
  have same : L.machine.state.rtFree p q = some L.machine.state := by
    rcases ok.freed _ hx with ⟨-, nothing⟩ | ⟨c, -, rests⟩
    · obtain ⟨c, hc, block⟩ := mem_allocated.mp nothing
      exact rtFree_empty (ok.valid.holds.sound c hc) block
    · exact if_pos (.inr (.inl (rests.unlinked rfl)))
  have recorded : L.record p (.free q) = some L.freed := congrArg some (if_neg new)
  have live : (L.machine.live.eraseP fun x => x.1 = q) = L.machine.live := by
    refine List.eraseP_of_forall_not fun x mem => ?_
    exact fun same => new ⟨x, mem, of_decide_eq_true same⟩
  have stepped : L.machine.step p (.free q) = some L.machine := by
    rw [Machine.step, same]
    exact congrArg (fun live => some { L.machine with live := live }) live
  exact step_eq stepped recorded

/-- Every step leaves the freed blocks where they are. -/
theorem step (room : OVERHEAD ≤ p.chunk) (ok : L.Ok p cs lost) (allowed : L.Allowed p e)
    (stepped : L.step p e = some L') : ∃ cs' lost', L'.Ok p cs' lost' := by
  cases e with
  | init chk =>
      rcases ok.valid.init_cases room allowed with does | ⟨M', does, keeps, valid, -⟩
      · cases (step_eq does rfl).symm.trans stepped
        exact ⟨cs, lost, ok⟩
      · cases (step_eq does rfl).symm.trans stepped
        exact ⟨_, lost, ok.steady keeps valid⟩
  | malloc size =>
      obtain ⟨L₁, cs', does, ok'⟩ := ok.malloc room size
      cases does.symm.trans stepped
      exact ⟨cs', lost, ok'⟩
  | free addr =>
      by_cases mem : ∃ x ∈ L.machine.live, x.1 = addr
      · obtain ⟨L₁, cs', lost', does, ok'⟩ := ok.free room mem
        cases does.symm.trans stepped
        exact ⟨cs', lost', ok'⟩
      · cases (ok.again mem (allowed.resolve_left mem)).symm.trans stepped
        exact ⟨cs, lost, ok⟩
  | allocSysrq chk =>
      rcases ok.valid.allocSysrq_cases room allowed with does | ⟨M', does, keeps, valid, -⟩
      · cases (step_eq does rfl).symm.trans stepped
        exact ⟨cs, lost, ok⟩
      · cases (step_eq does rfl).symm.trans stepped
        exact ⟨_, lost, ok.steady keeps valid⟩
  | freeSysrq =>
      obtain ⟨L₁, cs', does, ok'⟩ := ok.freeSysrq room
      cases does.symm.trans stepped
      exact ⟨cs', lost, ok'⟩
  | write a cell =>
      obtain ⟨L₁, does, ok'⟩ := ok.write allowed
      cases does.symm.trans stepped
      exact ⟨cs, lost, ok'⟩

end Ok

/-- In every run: freeing a block again changes neither the free lists nor the accounts,
exactly if the block was not joined with the free block before it, or a header has been put
in its place since. -/
theorem freed_twice (room : OVERHEAD ≤ p.chunk) {M₀ : Machine} (init : M₀.Initial)
    {tr : List (Record Ledger Event)}
    (run : Run (fun e L => step p e L) (fun L e => L.Allowed p e) ⟨M₀, []⟩ tr L) :
    ∀ x ∈ L.freed, (L.machine.state.Harmless p x.addr ↔ x.joined = false) := by
  have ok : ∃ cs lost, L.Ok p cs lost := by
    refine run.invariant (P := fun L => ∃ cs lost, L.Ok p cs lost) ?_ ?_
    · exact ⟨[], [], init.valid, fun x hx => absurd hx List.not_mem_nil⟩
    · intro L L' e ⟨cs, lost, ok⟩ allowed stepped
      exact ok.step room allowed stepped
  obtain ⟨cs, lost, ok⟩ := ok
  intro x hx
  exact ok.harmless hx

instance (L : Ledger) : ∀ e, Decidable (L.Allowed p e)
  | .free addr =>
      inferInstanceAs (Decidable ((∃ x ∈ L.machine.live, x.1 = addr) ∨ ⟨addr, false⟩ ∈ L.freed))
  | .init chk => inferInstanceAs (Decidable (L.machine.Allowed p (.init chk)))
  | .malloc size => inferInstanceAs (Decidable (L.machine.Allowed p (.malloc size)))
  | .allocSysrq chk => inferInstanceAs (Decidable (L.machine.Allowed p (.allocSysrq chk)))
  | .freeSysrq => inferInstanceAs (Decidable (L.machine.Allowed p .freeSysrq))
  | .write a cell => inferInstanceAs (Decidable (L.machine.Allowed p (.write a cell)))

/-- A block is freed, freed again, and can be freed once more. -/
theorem freed_twice_linked :
    ∃ tr L, Run (fun e L => step {} e L) (fun L e => L.Allowed {} e) ⟨Machine.unloaded, []⟩ tr L ∧
      L.freed = [⟨0x1020, false⟩] ∧ L.machine.state.Harmless {} 0x1020 := by
  obtain ⟨tr, L, run, test⟩ := Run.of_execute (fun e L => step {} e L) (fun L e => L.Allowed {} e)
    ⟨Machine.unloaded, []⟩ [.init 0x1000, .malloc 16, .malloc 16, .free 0x1020, .free 0x1020]
    (fun L => L.freed = [⟨0x1020, false⟩]) (by decide +kernel)
  have freed : L.freed = [⟨0x1020, false⟩] := of_decide_eq_true test
  have here : (⟨0x1020, false⟩ : Freed) ∈ L.freed := by simp [freed]
  have harmless := (freed_twice (by decide) Machine.unloaded_initial run ⟨0x1020, false⟩ here).mpr rfl
  exact ⟨tr, L, run, freed, harmless⟩

/-- A block is joined with its neighbour, and a second `rt_free` is counted. -/
theorem joined_counts_twice :
    ∃ tr L, Run (fun e L => step {} e L) (fun L e => L.Allowed {} e) ⟨Machine.unloaded, []⟩ tr L ∧
      ⟨0x1040, true⟩ ∈ L.freed ∧ ¬L.machine.state.Harmless {} 0x1040 := by
  obtain ⟨tr, L, run, test⟩ := Run.of_execute (fun e L => step {} e L) (fun L e => L.Allowed {} e)
    ⟨Machine.unloaded, []⟩ [.init 0x1000, .malloc 16, .malloc 16, .free 0x1020, .free 0x1040]
    (fun L => L.freed.contains ⟨0x1040, true⟩ && (L.machine.state.rtFree {} 0x1040).any fun s' =>
      s'.memoryLeak ≠ L.machine.state.memoryLeak) (by decide +kernel)
  obtain ⟨here, counted⟩ := Bool.and_eq_true_iff.mp test
  refine ⟨tr, L, run, List.contains_iff_mem.mp here, ?_⟩
  rintro ⟨s', does, same⟩
  rw [does] at counted
  exact of_decide_eq_true counted same.memoryLeak

end Ledger

end Rtai.Heap
