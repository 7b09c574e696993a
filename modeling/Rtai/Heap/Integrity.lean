import Rtai.Heap.Chunks

/-!
# The integrity of the heap

A machine of the heap and of those who use it: which chunks it has, which blocks it
has handed out, and what they write.  `heap_intact` holds in every run: the blocks
in use, the free ones and the headers do not overlap, the free lists are in order, no
chunk with a block in use is given back, and every call returns.
-/

namespace Rtai.Heap

open Function Rtai.Lib

/-- The heap, with the history that counts. -/
structure Machine where
  state : State
  /-- What `alloc_chunk` returned and `free_chunk` was not given. -/
  chunks : List Nat := []
  /-- What `rt_malloc` returned and `rt_free` was not given, with the sizes asked for. -/
  live : List (Nat × Nat) := []

inductive Event where
  /-- A round of the loop of `__rt_mem_init`; `alloc_chunk` returns `chk`. -/
  | init (chk : Nat)
  | malloc (size : Nat)
  | free (addr : Nat)
  /-- `rt_alloc_sysrq_handler`; `alloc_chunk` returns `chk`. -/
  | allocSysrq (chk : Nat)
  | freeSysrq
  /-- Somebody writes to the cell at `a`. -/
  | write (a : Nat) (cell : Cell)

namespace Machine

/-- The chunks with the one that `alloc_chunk` returned. -/
def withChunk (chk : Nat) (M : Machine) : List Nat :=
  if chk = 0 then M.chunks else M.chunks ++ [chk]

/-- The machine takes a step, if the call returns. -/
def step (p : Params) : Event → Machine → Option Machine
  | .init chk, M => do
      let s ← M.state.rtMemInitRound p chk
      return { M with state := s, chunks := M.withChunk chk }
  | .malloc size, M => do
      let (s, memPtr) ← M.state.rtMalloc p size
      let live := if memPtr = 0 then M.live else (memPtr, size) :: M.live
      return { M with state := s, live := live }
  | .free addr, M => do
      let s ← M.state.rtFree p addr
      return { M with state := s, live := M.live.eraseP fun x => x.1 = addr }
  | .allocSysrq chk, M => do
      let s ← M.state.rtAllocSysrqHandler p chk
      return { M with state := s, chunks := M.withChunk chk }
  | .freeSysrq, M => do
      let (s, given) ← M.state.rtFreeSysrqHandler p
      return { M with state := s, chunks := given.elim M.chunks M.chunks.erase }
  | .write a cell, M => some { M with state.mem := update M.state.mem a cell }

/-- Requests are of a size that a chunk can have, blocks are freed once, `alloc_chunk`
returns fresh regions, and nobody writes to what is not his. -/
def Proper (p : Params) (M : Machine) : Event → Prop
  | .init chk | .allocSysrq chk => chk ≠ 0 → Fresh p chk M.chunks
  | .malloc size => 0 < size ∧ size ≤ p.chunk - OVERHEAD
  | .free addr => ∃ x ∈ M.live, x.1 = addr
  | .freeSysrq => True
  | .write a _ => (∃ x ∈ M.live, x.1 ≤ a ∧ a < x.1 + x.2) ∨
      ∀ chk ∈ M.chunks, a < chk ∨ chk + p.chunk ≤ a

/-- Requests are of any size, and nobody writes to more of a block than there is. -/
def Allowed (p : Params) (M : Machine) : Event → Prop
  | .malloc _ => True
  | .write a _ => (∃ x ∈ M.live, x.1 ≤ a ∧ a < x.1 + State.roundUp x.2) ∨
      ∀ chk ∈ M.chunks, a < chk ∨ chk + p.chunk ≤ a
  | e => M.Proper p e

/-- The heap before `__rt_mem_init`. -/
structure Initial (M : Machine) : Prop where
  chkList : M.state.chkList = 0
  memoryLeak : M.state.memoryLeak = 0
  memoryOverhead : M.state.memoryOverhead = 0
  chunks : M.chunks = []
  live : M.live = []

/-- The size in the header of a block. -/
def size (M : Machine) (blk : Nat) : Nat := (M.state.mem blk).size

/-- The bytes of two blocks do not overlap, headers included. -/
def Clear (M : Machine) (blk other : Nat) : Prop :=
  blk + BLKHDR + M.size blk ≤ other ∨ other + BLKHDR + M.size other ≤ blk

/-- The free list of a chunk: in order, no block adjacent to the next, and none of them
in use. -/
structure FreeList (p : Params) (M : Machine) (chk : Nat) (free : List Nat) : Prop where
  list : Chain M.state.mem (M.state.mem chk).freeList free
  order : free.Pairwise fun blk next => blk + BLKHDR + M.size blk < next
  inside : ∀ blk ∈ free, chk + CHKHDR ≤ blk ∧ blk + BLKHDR + M.size blk ≤ chk + p.chunk
  clear : ∀ blk ∈ free, ∀ x ∈ M.live, M.Clear (x.1 - BLKHDR) blk

structure Intact (p : Params) (M : Machine) : Prop where
  chkList : Chain M.state.mem M.state.chkList M.chunks
  apart : M.chunks.Pairwise fun chk other =>
    chk + p.chunk ≤ other ∨ other + p.chunk ≤ chk
  /-- A block is in a chunk of the list, behind the header of the chunk and its own. -/
  inside : ∀ x ∈ M.live, ∃ chk ∈ M.chunks, chk + OVERHEAD ≤ x.1 ∧
    x.1 + M.size (x.1 - BLKHDR) ≤ chk + p.chunk
  aligned : ∀ x ∈ M.live, MINSIZE ∣ x.1
  large : ∀ x ∈ M.live, x.2 ≤ M.size (x.1 - BLKHDR)
  clear : M.live.Pairwise fun x y => M.Clear (x.1 - BLKHDR) (y.1 - BLKHDR)
  free : ∀ chk ∈ M.chunks, ∃ free, M.FreeList p chk free

/-- The heap is made of chunks, and the blocks in use are those handed out, and `lost`
ones: `rt_free` refuses a block without a byte. -/
structure Valid (p : Params) (M : Machine) (cs : List Chunk) (lost : List Nat) : Prop where
  holds : M.state.Holds p cs
  chunks : M.chunks = cs.map Chunk.addr
  live : (allocated cs).Perm
    (M.live.map (fun x => (x.1, State.roundUp x.2)) ++ lost.map fun q => (q, 0))

/-- No request was of a size that a chunk cannot have. -/
structure Ok (p : Params) (M : Machine) (cs : List Chunk) : Prop extends M.Valid p cs [] where
  size : ∀ x ∈ M.live, 0 < x.2 ∧ x.2 ≤ p.chunk - OVERHEAD

variable {p : Params} {M M' : Machine} {cs : List Chunk} {lost : List Nat} {x : Nat × Nat}
  {e : Event}

theorem Initial.valid (init : M.Initial) : M.Valid p [] [] where
  holds := {
    chain := init.chkList
    sound := nofun
    far := List.Pairwise.nil
    overhead := init.memoryOverhead
    leak := init.memoryLeak }
  chunks := init.chunks
  live := by
    rw [init.live]
    exact List.Perm.refl _

theorem Initial.ok (init : M.Initial) : M.Ok p [] where
  toValid := init.valid
  size := by
    rw [init.live]
    exact nofun

namespace Valid

/-- A block that was handed out is in a chunk. -/
theorem block (ok : M.Valid p cs lost) (hx : x ∈ M.live) :
    ∃ c ∈ cs, (x.1, State.roundUp x.2) ∈ c.blocks := by
  refine mem_allocated.mp (ok.live.mem_iff.mpr (List.mem_append_left _ ?_))
  exact List.mem_map.mpr ⟨x, hx, rfl⟩

/-- A request is refused, or served from a chunk. -/
theorem malloc_cases (room : OVERHEAD ≤ p.chunk) (ok : M.Valid p cs lost) (n : Nat) :
    (∃ s, M.state.rtMalloc p n = some (s, 0) ∧ s.mem = M.state.mem ∧
      { M with state := s }.Valid p cs lost) ∨
    ∃ xs c ys b ts' s' s, cs = xs ++ c :: ys ∧
      (∀ d ∈ xs, take BLKHDR MINSIZE (State.roundUp n) d.start d.tiles = none) ∧
      take BLKHDR MINSIZE (State.roundUp n) c.start c.tiles = some (b, ts') ∧
      M.state.rtMalloc p n = some (s, b + BLKHDR) ∧ s.mem = s'.mem ∧
      Reshaped M.state s' c.addr 0 c.start (c.addr + p.chunk) c.tiles ts' ∧ { M with
        state := s
        live := (b + BLKHDR, n) :: M.live }.Valid p (xs ++ (⟨c.addr, ts'⟩ : Chunk) :: ys) lost := by
  have pended (s : State) : (s.pendAllocSysrq p).mem = s.mem := by
    unfold State.pendAllocSysrq
    split
    · rfl
    · rfl
  rcases rtMalloc_cases room ok.holds n with ⟨does, -⟩ | ⟨-, ⟨does, -⟩ |
      ⟨xs, c, ys, b, ts', s', rfl, before, taken, does, reshaped⟩⟩
  · exact .inl ⟨_, does, rfl, ok⟩
  · exact .inl ⟨_, does, pended _, ⟨ok.holds.pendAllocSysrq, ok.chunks, ok.live⟩⟩
  · obtain ⟨holds, more⟩ := ok.holds.take room taken reshaped
    refine .inr ⟨xs, c, ys, b, ts', s', _, rfl, before, taken, does, pended _, reshaped, holds, ?_,
      more.trans (ok.live.cons _)⟩
    rw [ok.chunks, List.map_append, List.map_append]
    rfl

/-- Every request returns, and at most one block more is in use. -/
theorem malloc (room : OVERHEAD ≤ p.chunk) (ok : M.Valid p cs lost) (n : Nat) :
    ∃ M' cs', step p (.malloc n) M = some M' ∧ M'.Valid p cs' lost ∧
      (∀ x ∈ M'.live, x.2 = n ∨ x ∈ M.live) ∧
      (AllExact (State.roundUp n) cs → AllWhole cs → AllWhole cs') := by
  rcases ok.malloc_cases room n with ⟨s, does, -, ok'⟩ |
      ⟨xs, c, ys, b, ts', s', s, rfl, before, taken, does, -, -, ok'⟩
  · refine ⟨_, cs, ?_, ok', fun _ => .inr, fun _ => id⟩
    rw [step, does]
    rfl
  · have found : b + BLKHDR ≠ 0 := Nat.ne_of_gt (Nat.add_pos_right b blkhdr_pos)
    refine ⟨_, _, ?_, ok', ?_, fun exact whole => whole.reshape fun here => ?_⟩
    · rw [step, does]
      show some { M with state := s, live := if b + BLKHDR = 0 then _ else _ } = _
      rw [if_neg found]
    · intro x hx
      rcases List.mem_cons.mp hx with rfl | hx
      · exact .inl rfl
      · exact .inr hx
    · exact here.take (exact xs c ys rfl before) taken

variable {q : Nat}

/-- The entry of a block that was handed out. -/
theorem freed (mem : ∃ x ∈ M.live, x.1 = q) :
    ∃ x ∈ M.live, x.1 = q ∧ ((M.live.map fun x => (x.1, State.roundUp x.2)).Perm
      ((q, State.roundUp x.2) ::
        (M.live.eraseP fun x => x.1 = q).map fun x => (x.1, State.roundUp x.2))) := by
  obtain ⟨y, mem, hy⟩ := mem
  obtain ⟨x, before, behind, -, isAddr, e, e'⟩ :=
    @List.exists_of_eraseP _ (fun x : Nat × Nat => x.1 = q) _ _ mem (decide_eq_true hy)
  have addr : x.1 = q := of_decide_eq_true isAddr
  refine ⟨x, ?_, addr, ?_⟩
  · rw [e]
    exact List.mem_append_right before List.mem_cons_self
  · rw [e', e, List.map_append, List.map_cons, List.map_append, addr]
    exact List.perm_middle

variable {chk : Nat}

section

variable (room : OVERHEAD ≤ p.chunk) (ok : M.Valid p cs lost)
include room ok

/-- A block that was handed out is released in its chunk, or has no byte. -/
theorem free_cases (mem : ∃ x ∈ M.live, x.1 = q) :
    (M.state.rtFree p q = some M.state ∧ (∃ x ∈ M.live, State.roundUp x.2 = 0) ∧
      (q, 0) ∈ allocated cs ∧
      { M with live := M.live.eraseP fun x => x.1 = q }.Valid p cs (q :: lost)) ∨
    ∃ xs c ys n s' s, cs = xs ++ c :: ys ∧ (q, n) ∈ c.blocks ∧ 0 < n ∧
      M.state.rtFree p q = some s ∧ s.mem = s'.mem ∧
      Reshaped M.state s' c.addr 0 c.start (c.addr + p.chunk) c.tiles
        (release BLKHDR (q - BLKHDR) c.start c.tiles) ∧ { M with
        state := s
        live := M.live.eraseP fun x => x.1 = q }.Valid p
          (xs ++ (⟨c.addr, release BLKHDR (q - BLKHDR) c.start c.tiles⟩ : Chunk) :: ys) lost := by
  have pended (s : State) : (s.pendFreeSysrq p).mem = s.mem := by
    unfold State.pendFreeSysrq
    split
    · rfl
    · rfl
  obtain ⟨x, hx, rfl, perm⟩ := freed mem
  obtain ⟨c, hc, block⟩ := ok.block hx
  obtain ⟨xs, ys, rfl⟩ := List.append_of_mem hc
  have live := ok.live.trans (perm.append_right _)
  rcases Nat.eq_zero_or_pos (State.roundUp x.2) with none | some
  · rw [none] at block live
    exact .inl ⟨rtFree_empty (ok.holds.sound c hc) block, ⟨x, hx, none⟩,
      mem_allocated.mpr ⟨c, hc, block⟩, ok.holds, ok.chunks, live.trans List.perm_middle.symm⟩
  · obtain ⟨s', does, reshaped⟩ := rtFree_does room (ok.holds.sound c hc) block some
    obtain ⟨holds, less⟩ := ok.holds.release room block reshaped
    refine .inr ⟨xs, c, ys, _, s', _, rfl, block, some, does, pended _, reshaped, holds, ?_,
      (less.symm.trans live).cons_inv⟩
    rw [ok.chunks, List.map_append, List.map_append]
    rfl

/-- Every block that was handed out can be freed, but for those without a byte. -/
theorem free (mem : ∃ x ∈ M.live, x.1 = q) :
    ∃ M' cs' lost', step p (.free q) M = some M' ∧ M'.Valid p cs' lost' ∧
      (∀ x ∈ M'.live, x ∈ M.live) ∧ ((∀ x ∈ M.live, 0 < State.roundUp x.2) → lost' = lost) ∧
      (AllWhole cs → AllWhole cs') := by
  rcases ok.free_cases room mem with ⟨does, ⟨x, hx, none⟩, -, ok'⟩ |
      ⟨xs, c, ys, n, s', s, rfl, -, -, does, -, -, ok'⟩
  · refine ⟨_, _, _, ?_, ok', fun y hy => List.mem_of_mem_eraseP hy, fun some => ?_, id⟩
    · rw [step, does]
      rfl
    · exact absurd none (Nat.ne_of_gt (some x hx))
  · refine ⟨_, _, _, ?_, ok', fun y hy => List.mem_of_mem_eraseP hy, fun _ => rfl,
      fun whole => whole.reshape Whole.release⟩
    rw [step, does]
    rfl

/-- A chunk that comes is unused. -/
theorem withChunk (some : chk ≠ 0) (fresh : Fresh p chk M.chunks) :
    ∃ s', M.state.addChunk p chk = .some s' ∧ M.state.Keeps p cs s' ∧ { M with
      state := s'
      chunks := M.withChunk chk }.Valid p (cs ++ [Chunk.unused p chk]) lost := by
  rw [ok.chunks] at fresh
  obtain ⟨s', does, holds, keeps, -⟩ := addChunk_spec room ok.holds some fresh
  refine ⟨s', does, keeps, holds, ?_, ?_⟩
  · show M.withChunk chk = _
    rw [Machine.withChunk, if_neg some, ok.chunks, List.map_append]
    rfl
  · rw [allocated_unused, List.append_nil]
    exact ok.live

/-- No chunk comes, or one that is unused. -/
theorem init_cases (proper : M.Proper p (.init chk)) :
    step p (.init chk) M = some M ∨ ∃ M', step p (.init chk) M = some M' ∧
      M.state.Keeps p cs M'.state ∧ M'.Valid p (cs ++ [Chunk.unused p chk]) lost ∧
      M'.live = M.live := by
  by_cases none : chk = 0
  · subst none
    exact .inl rfl
  · obtain ⟨s', does, keeps, ok'⟩ := ok.withChunk room none (proper none)
    refine .inr ⟨_, ?_, keeps, ok', rfl⟩
    rw [step, State.rtMemInitRound, if_neg none, does]
    rfl

theorem init (proper : M.Proper p (.init chk)) :
    ∃ M' cs', step p (.init chk) M = some M' ∧ M'.Valid p cs' lost ∧ M'.live = M.live ∧
      (AllWhole cs → AllWhole cs') := by
  rcases ok.init_cases room proper with does | ⟨M', does, -, ok', live⟩
  · exact ⟨M, cs, does, ok, rfl, id⟩
  · exact ⟨M', _, does, ok', live, AllWhole.withChunk⟩

theorem allocSysrq_cases (proper : M.Proper p (.allocSysrq chk)) :
    step p (.allocSysrq chk) M = some M ∨ ∃ M', step p (.allocSysrq chk) M = some M' ∧
      M.state.Keeps p cs M'.state ∧ M'.Valid p (cs ++ [Chunk.unused p chk]) lost ∧
      M'.live = M.live := by
  by_cases none : chk = 0
  · subst none
    exact .inl rfl
  · obtain ⟨s', does, keeps, ok'⟩ := ok.withChunk room none (proper none)
    let s₁ : State := { s' with allocNoChk := 0, extraChks := s'.extraChks + 1 }
    have holds : s₁.Holds p (cs ++ [Chunk.unused p chk]) :=
      ok'.holds.frame (fun _ _ _ _ _ => rfl) rfl rfl rfl
    refine .inr ⟨{ M with state := s₁, chunks := M.withChunk chk }, ?_, keeps,
      ⟨holds, ok'.chunks, ok'.live⟩, rfl⟩
    rw [step, State.rtAllocSysrqHandler, if_neg none, does]
    rfl

theorem allocSysrq (proper : M.Proper p (.allocSysrq chk)) :
    ∃ M' cs', step p (.allocSysrq chk) M = some M' ∧ M'.Valid p cs' lost ∧ M'.live = M.live ∧
      (AllWhole cs → AllWhole cs') := by
  rcases ok.allocSysrq_cases room proper with does | ⟨M', does, -, ok', live⟩
  · exact ⟨M, cs, does, ok, rfl, id⟩
  · exact ⟨M', _, does, ok', live, AllWhole.withChunk⟩

/-- No chunk goes, or one that is unused. -/
theorem freeSysrq_cases :
    (∃ s, M.state.rtFreeSysrqHandler p = some (s, none) ∧ s.mem = M.state.mem ∧
      { M with state := s }.Valid p cs lost) ∨
    ∃ xs chk ys s, cs = xs ++ Chunk.unused p chk :: ys ∧
      M.state.rtFreeSysrqHandler p = some (s, some chk) ∧ M.state.Keeps p cs s ∧
      { M with state := s, chunks := M.chunks.erase chk }.Valid p (xs ++ ys) lost := by
  obtain ⟨s, out, does, ⟨rfl, holds, -, same⟩ | ⟨xs, chk, ys, rfl, rfl, holds, keeps, -⟩⟩ :=
    rtFreeSysrqHandler_spec room ok.holds
  · refine .inl ⟨s, does, ?_, holds, ok.chunks, ok.live⟩
    rw [same]
  · refine .inr ⟨xs, chk, ys, s, rfl, does, keeps, holds, ?_, ?_⟩
    · have nodup := ok.holds.nodup room
      rw [List.map_append, List.map_cons] at nodup
      have elsewhere : chk ∉ xs.map Chunk.addr := fun h =>
        (List.nodup_cons.mp (List.nodup_middle.mp nodup)).1 (List.mem_append_left _ h)
      show M.chunks.erase chk = _
      rw [ok.chunks, List.map_append, List.map_cons, List.erase_append_right _ elsewhere,
        List.map_append]
      exact congrArg _ (List.erase_cons_head ..)
    · have live := ok.live
      rwa [allocated_unused] at live

theorem freeSysrq :
    ∃ M' cs', step p .freeSysrq M = some M' ∧ M'.Valid p cs' lost ∧ M'.live = M.live ∧
      (AllWhole cs → AllWhole cs') := by
  rcases ok.freeSysrq_cases room with ⟨s, does, -, ok'⟩ | ⟨xs, chk, ys, s, rfl, does, -, ok'⟩
  · refine ⟨_, cs, ?_, ok', rfl, id⟩
    rw [step, does]
    rfl
  · refine ⟨_, xs ++ ys, ?_, ok', rfl, fun whole d hd => ?_⟩
    · rw [step, does]
      rfl
    · exact whole d (List.perm_middle.mem_iff.mpr (List.mem_cons_of_mem _ hd))

end

theorem write (ok : M.Valid p cs lost) {a : Nat} {cell : Cell}
    (allowed : M.Allowed p (.write a cell)) :
    ∃ M', step p (.write a cell) M = some M' ∧ M'.Valid p cs lost ∧ M'.live = M.live := by
  refine ⟨_, rfl, ⟨ok.holds.write fun c hc => ?_, ok.chunks, ok.live⟩, rfl⟩
  rcases allowed with ⟨x, hx, low, high⟩ | outside
  · obtain ⟨d, hd, block⟩ := ok.block hx
    rcases ok.holds.far_or_same hc hd with rfl | far
    · exact .inr ⟨x.1, State.roundUp x.2, block, low, by omega⟩
    · have far : c.addr + p.chunk ≤ d.addr ∨ d.addr + p.chunk ≤ c.addr := far
      have inside := (ok.holds.sound d hd).block block
      exact .inl (by omega)
  · refine .inl (outside c.addr ?_)
    rw [ok.chunks]
    exact List.mem_map.mpr ⟨c, hc, rfl⟩

/-- Every call returns, and keeps the heap in order. -/
theorem step (room : OVERHEAD ≤ p.chunk) (ok : M.Valid p cs lost) (allowed : M.Allowed p e) :
    ∃ M' cs' lost', Machine.step p e M = some M' ∧ M'.Valid p cs' lost' := by
  cases e with
  | init chk =>
      obtain ⟨M', cs', does, ok', -⟩ := ok.init room allowed
      exact ⟨M', cs', lost, does, ok'⟩
  | malloc size =>
      obtain ⟨M', cs', does, ok', -⟩ := ok.malloc room size
      exact ⟨M', cs', lost, does, ok'⟩
  | free addr =>
      obtain ⟨M', cs', lost', does, ok', -⟩ := ok.free room allowed
      exact ⟨M', cs', lost', does, ok'⟩
  | allocSysrq chk =>
      obtain ⟨M', cs', does, ok', -⟩ := ok.allocSysrq room allowed
      exact ⟨M', cs', lost, does, ok'⟩
  | freeSysrq =>
      obtain ⟨M', cs', does, ok', -⟩ := ok.freeSysrq room
      exact ⟨M', cs', lost, does, ok'⟩
  | write a cell =>
      obtain ⟨M', does, ok', -⟩ := ok.write allowed
      exact ⟨M', cs, lost, does, ok'⟩

/-- In every run the heap is in order. -/
theorem run (room : OVERHEAD ≤ p.chunk) {M₀ : Machine} (init : M₀.Initial)
    {tr : List (Record Machine Event)} (run : Run (Machine.step p) (Allowed p) M₀ tr M) :
    ∃ cs lost, M.Valid p cs lost := by
  refine run.invariant (P := fun M => ∃ cs lost, M.Valid p cs lost) ⟨[], [], init.valid⟩ ?_
  intro M M' e ⟨cs, lost, ok⟩ allowed stepped
  obtain ⟨M₁, cs₁, lost₁, does, ok₁⟩ := ok.step room allowed
  cases does.symm.trans stepped
  exact ⟨cs₁, lost₁, ok₁⟩

/-- The size in the header of a block that was handed out. -/
theorem size_eq (ok : M.Valid p cs lost) (hx : x ∈ M.live) :
    M.size (x.1 - BLKHDR) = State.roundUp x.2 := by
  obtain ⟨c, hc, block⟩ := ok.block hx
  exact ((ok.holds.sound c hc).laid.block block).2.1

/-- Two blocks that were handed out are apart. -/
theorem clear (ok : M.Valid p cs lost) :
    M.live.Pairwise fun x y => M.Clear (x.1 - BLKHDR) (y.1 - BLKHDR) := by
  have apart : (allocated cs).Pairwise fun x y =>
      x.1 + x.2 + BLKHDR ≤ y.1 ∨ y.1 + y.2 + BLKHDR ≤ x.1 := by
    refine List.pairwise_flatMap.mpr ⟨fun c _ => blocks_pairwise.imp .inl, ?_⟩
    refine ok.holds.far.imp_of_mem fun {c d} hc hd far x hx y hy => ?_
    have far : c.addr + p.chunk ≤ d.addr ∨ d.addr + p.chunk ≤ c.addr := far
    have first := (ok.holds.sound c hc).block hx
    have second := (ok.holds.sound d hd).block hy
    unfold OVERHEAD at first second
    omega
  have live := (ok.live.pairwise_iff fun h => h.elim .inr .inl).mp apart
  have live := (List.pairwise_append.mp live).1
  refine (List.pairwise_map.mp live).imp_of_mem fun {x y} hx hy h => ?_
  obtain ⟨c, hc, block⟩ := ok.block hx
  obtain ⟨d, hd, block'⟩ := ok.block hy
  have first := ((ok.holds.sound c hc).block block).1
  have second := ((ok.holds.sound d hd).block block').1
  unfold Clear
  rw [ok.size_eq hx, ok.size_eq hy]
  have h : x.1 + State.roundUp x.2 + BLKHDR ≤ y.1 ∨ y.1 + State.roundUp y.2 + BLKHDR ≤ x.1 := h
  unfold OVERHEAD at first second
  omega

/-- The free blocks of a chunk. -/
theorem freeList (ok : M.Valid p cs lost) {c : Chunk} (hc : c ∈ cs) :
    M.FreeList p c.addr ((frees BLKHDR c.start c.tiles).map Prod.fst) := by
  have sound := ok.holds.sound c hc
  have size {f n : Nat} (mem : (f, n) ∈ frees BLKHDR c.start c.tiles) : M.size f = n :=
    sound.laid.free mem
  refine ⟨?_, ?_, fun blk hb => ?_, fun blk hb x hx => ?_⟩
  · rw [sound.freeList]
    exact sound.laid.chain c.start_pos
  · refine List.pairwise_map.mpr ((sound.apart.frees_pairwise blkhdr_pos).imp_of_mem ?_)
    intro x y hx _ order
    rw [size hx]
    exact order
  · obtain ⟨⟨f, n⟩, mem, rfl⟩ := List.mem_map.mp hb
    have inside := sound.fill.area_inside (frees_subset mem)
    rw [size mem]
    exact ⟨Nat.le_of_add_le_add_right inside.1, inside.2⟩
  · obtain ⟨⟨f, n⟩, mem, rfl⟩ := List.mem_map.mp hb
    have inside := sound.fill.area_inside (frees_subset mem)
    obtain ⟨d, hd, block⟩ := ok.block hx
    have low := (ok.holds.sound d hd).block block
    have start : c.start = c.addr + CHKHDR := rfl
    unfold Clear
    rw [size mem, ok.size_eq hx]
    unfold OVERHEAD at low
    rcases ok.holds.far_or_same hc hd with rfl | far
    · have apart := sound.fill.behind.apart (blocks_subset block) (frees_subset mem)
        (blocks_frees blkhdr_pos block mem)
      omega
    · have far : c.addr + p.chunk ≤ d.addr ∨ d.addr + p.chunk ≤ c.addr := far
      omega

/-- A chunk that is given back is unused. -/
theorem given (room : OVERHEAD ≤ p.chunk) (ok : M.Valid p cs lost) {s : State}
    (given : M.state.rtFreeSysrqHandler p = some (s, some chk)) :
    chk ∈ M.chunks ∧ ∀ x ∈ M.live, x.1 + M.size (x.1 - BLKHDR) ≤ chk ∨ chk + p.chunk ≤ x.1 := by
  obtain ⟨s', out, does, ⟨rfl, -, -⟩ | ⟨xs, chk', ys, rfl, rfl, -⟩⟩ :=
    rtFreeSysrqHandler_spec room ok.holds
  · cases given.symm.trans does
  · cases given.symm.trans does
    have mem : Chunk.unused p chk ∈ xs ++ Chunk.unused p chk :: ys :=
      List.mem_append_right xs List.mem_cons_self
    refine ⟨?_, fun x hx => ?_⟩
    · rw [ok.chunks]
      exact List.mem_map.mpr ⟨_, mem, rfl⟩
    · obtain ⟨c, hc, block⟩ := ok.block hx
      rw [ok.size_eq hx]
      rcases ok.holds.far_or_same mem hc with rfl | far
      · cases block
      · have far : chk + p.chunk ≤ c.addr ∨ c.addr + p.chunk ≤ chk := far
        have inside := (ok.holds.sound c hc).block block
        omega

end Valid

namespace Ok

variable (room : OVERHEAD ≤ p.chunk) (ok : M.Ok p cs)
include room ok

/-- A block with room for what was asked for. -/
theorem positive (hx : x ∈ M.live) : 0 < State.roundUp x.2 :=
  Nat.lt_of_lt_of_le (ok.size x hx).1 (roundUp_spec room (ok.size x hx).2)

theorem allowed (proper : M.Proper p e) : M.Allowed p e := by
  cases e with
  | malloc size => exact trivial
  | write a cell =>
      refine proper.imp_left ?_
      intro ⟨x, hx, low, high⟩
      have large := roundUp_spec room (ok.size x hx).2
      exact ⟨x, hx, low, Nat.lt_of_lt_of_le high (Nat.add_le_add_left large x.1)⟩
  | _ => exact proper

/-- Every proper call returns, and keeps the heap in order.  Bytes are lost in allocations
only. -/
theorem step (proper : M.Proper p e) :
    ∃ M' cs', Machine.step p e M = some M' ∧ M'.Ok p cs' ∧
      ((∀ n, e = .malloc n → AllExact (State.roundUp n) cs) → AllWhole cs → AllWhole cs') := by
  have kept {M' : Machine} (live : M'.live = M.live) :
      ∀ x ∈ M'.live, 0 < x.2 ∧ x.2 ≤ p.chunk - OVERHEAD := by
    rw [live]
    exact ok.size
  cases e with
  | init chk =>
      obtain ⟨M', cs', does, ok', live, whole⟩ := ok.toValid.init room proper
      exact ⟨M', cs', does, ⟨ok', kept live⟩, fun _ => whole⟩
  | malloc size =>
      obtain ⟨M', cs', does, ok', live, whole⟩ := ok.toValid.malloc room size
      refine ⟨M', cs', does, ⟨ok', fun x hx => ?_⟩, fun exact => whole (exact size rfl)⟩
      rcases live x hx with rfl | old
      · exact proper
      · exact ok.size x old
  | free addr =>
      obtain ⟨M', cs', lost, does, ok', live, none, whole⟩ := ok.toValid.free room proper
      cases none fun x hx => ok.positive room hx
      exact ⟨M', cs', does, ⟨ok', fun x hx => ok.size x (live x hx)⟩, fun _ => whole⟩
  | allocSysrq chk =>
      obtain ⟨M', cs', does, ok', live, whole⟩ := ok.toValid.allocSysrq room proper
      exact ⟨M', cs', does, ⟨ok', kept live⟩, fun _ => whole⟩
  | freeSysrq =>
      obtain ⟨M', cs', does, ok', live, whole⟩ := ok.toValid.freeSysrq room
      exact ⟨M', cs', does, ⟨ok', kept live⟩, fun _ => whole⟩
  | write a cell =>
      obtain ⟨M', does, ok', live⟩ := ok.toValid.write (ok.allowed room proper)
      exact ⟨M', cs, does, ⟨ok', kept live⟩, fun _ => id⟩

theorem intact : M.Intact p where
  chkList := by
    rw [ok.chunks]
    exact ok.holds.chain
  apart := by
    rw [ok.chunks]
    exact List.pairwise_map.mpr ok.holds.far
  inside := fun x hx => by
    obtain ⟨c, hc, block⟩ := ok.block hx
    rw [ok.chunks, ok.size_eq hx]
    exact ⟨c.addr, List.mem_map.mpr ⟨c, hc, rfl⟩, (ok.holds.sound c hc).block block⟩
  aligned := fun x hx => by
    obtain ⟨c, hc, block⟩ := ok.block hx
    exact (ok.holds.sound c hc).fill.aligned (by decide) (blocks_subset block)
  large := fun x hx => by
    rw [ok.size_eq hx]
    exact roundUp_spec room (ok.size x hx).2
  clear := ok.clear
  free := fun chk h => by
    rw [ok.chunks] at h
    obtain ⟨c, hc, rfl⟩ := List.mem_map.mp h
    exact ⟨_, ok.freeList hc⟩

end Ok

/-- In every run the heap is intact, every proper call returns, and no chunk with a block
in use is given back. -/
theorem heap_intact (room : OVERHEAD ≤ p.chunk) {M₀ : Machine} (init : M₀.Initial)
    {tr : List (Record Machine Event)} (run : Run (step p) (Proper p) M₀ tr M) :
    M.Intact p ∧ (∀ e, M.Proper p e → ∃ M', step p e M = some M') ∧
      ∀ s chk, M.state.rtFreeSysrqHandler p = some (s, some chk) → chk ∈ M.chunks ∧
        ∀ x ∈ M.live, x.1 + M.size (x.1 - BLKHDR) ≤ chk ∨ chk + p.chunk ≤ x.1 := by
  have ok : ∃ cs, M.Ok p cs := by
    refine run.invariant (P := fun M => ∃ cs, M.Ok p cs) ⟨[], init.ok⟩ fun ok proper h => ?_
    obtain ⟨cs, ok⟩ := ok
    obtain ⟨M₁, cs₁, does, ok₁, -⟩ := ok.step room proper
    cases does.symm.trans h
    exact ⟨cs₁, ok₁⟩
  obtain ⟨cs, ok⟩ := ok
  refine ⟨ok.intact room, fun e proper => ?_, fun s chk given => ok.given room given⟩
  obtain ⟨M', -, does, -, -⟩ := ok.step room proper
  exact ⟨M', does⟩

instance (chk : Nat) (l : List Nat) : Decidable (Fresh p chk l) :=
  decidable_of_iff (MINSIZE ∣ chk ∧ chk + p.chunk ≤ 2 ^ 32 ∧
      ∀ c ∈ l, c + p.chunk ≤ chk ∨ chk + p.chunk ≤ c)
    ⟨fun h => ⟨h.1, h.2.1, h.2.2⟩, fun h => ⟨h.aligned, h.below, h.far⟩⟩

instance (M : Machine) : ∀ e, Decidable (M.Proper p e)
  | .init _ | .allocSysrq _ => inferInstanceAs (Decidable (_ → _))
  | .malloc _ => inferInstanceAs (Decidable (_ ∧ _))
  | .free addr => inferInstanceAs (Decidable (∃ x ∈ M.live, x.1 = addr))
  | .freeSysrq => .isTrue trivial
  | .write a _ => inferInstanceAs (Decidable ((∃ x ∈ M.live, x.1 ≤ a ∧ a < x.1 + x.2) ∨
      ∀ chk ∈ M.chunks, a < chk ∨ chk + p.chunk ≤ a))

instance (M : Machine) : ∀ e, Decidable (M.Allowed p e)
  | .malloc _ => .isTrue trivial
  | .write a _ => inferInstanceAs (Decidable
      ((∃ x ∈ M.live, x.1 ≤ a ∧ a < x.1 + State.roundUp x.2) ∨
        ∀ chk ∈ M.chunks, a < chk ∨ chk + p.chunk ≤ a))
  | .init chk => inferInstanceAs (Decidable (M.Proper p (.init chk)))
  | .free addr => inferInstanceAs (Decidable (M.Proper p (.free addr)))
  | .allocSysrq chk => inferInstanceAs (Decidable (M.Proper p (.allocSysrq chk)))
  | .freeSysrq => inferInstanceAs (Decidable (M.Proper p .freeSysrq))

/-- The heap before the module is loaded. -/
def unloaded : Machine := { state := {} }

theorem unloaded_initial : unloaded.Initial := ⟨rfl, rfl, rfl, rfl, rfl⟩

/-- Two chunks, one of which goes again, and a block in use between two free ones. -/
theorem heap_intact_used :
    ∃ tr M, Run (step {}) (Proper {}) unloaded tr M ∧ M.Intact {} ∧ M.live = [(0x1050, 100)] := by
  obtain ⟨tr, M, run, test⟩ := Run.of_execute (step {}) (Proper {}) unloaded
    [.init 0x1000, .malloc 20, .malloc 100, .malloc 7, .write 0x1050 {}, .free 0x1020,
      .allocSysrq 0x20000, .free 0x10d0, .freeSysrq]
    (fun M => M.live = [(0x1050, 100)]) (by decide +kernel)
  exact ⟨tr, M, run, (heap_intact (by decide) unloaded_initial run).1, of_decide_eq_true test⟩

end Machine

end Rtai.Heap
