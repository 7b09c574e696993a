import Rtai.Heap.Recovery
import Rtai.Lib.Within

/-!
# Requests of every size

`rt_malloc` rounds a request up on `unsigned int`: 0 and the last 15 sizes become 0, and
the first free block serves them.  `rt_free` refuses a block without a byte.
`malloc_every_size` says, in every state that a run leads to, which requests are refused or
served by a block that is large enough and can be freed.
-/

namespace Rtai.Heap

open Function Rtai.Lib

namespace State

/-- The block of `n` bytes at `q` is in a block of the free lists. -/
def Recovered (q n : Nat) (s : State) : Prop :=
  ∃ blk ∈ s.freeBlocks, blk + BLKHDR ≤ q ∧ q + n ≤ blk + BLKHDR + (s.mem blk).size

/-- `rt_malloc` returns `NULL`, or a block that is large enough and that `rt_free` puts on
the free list. -/
def Serves (p : Params) (n : Nat) (s : State) : Prop :=
  ∃ s' q, s.rtMalloc p n = some (s', q) ∧ (q = 0 ∨ n ≤ (s'.mem (q - BLKHDR)).size ∧
    ∃ s'', s'.rtFree p q = some s'' ∧ s''.Recovered q (s'.mem (q - BLKHDR)).size)

end State

variable {p : Params} {s : State} {q n blk : Nat} {c : Chunk} {cs xs ys : List Chunk}

namespace State.Holds

variable (room : OVERHEAD ≤ p.chunk) (holds : s.Holds p cs)
include room holds

/-- A free block is in a chunk. -/
theorem mem_freeBlocks :
    blk ∈ s.freeBlocks ↔
      ∃ c ∈ cs, (blk, (s.mem blk).size) ∈ frees BLKHDR c.start c.tiles := by
  rw [holds.freeBlocks_eq room, List.mem_flatMap]
  constructor
  · rintro ⟨c, hc, mem⟩
    obtain ⟨⟨f, k⟩, free, rfl⟩ := List.mem_map.mp mem
    refine ⟨c, hc, ?_⟩
    rw [(holds.sound c hc).laid.free free]
    exact free
  · rintro ⟨c, hc, free⟩
    exact ⟨c, hc, List.mem_map.mpr ⟨_, free, rfl⟩⟩

/-- A block in use and a free one are apart. -/
theorem clear (hc : c ∈ cs) (block : (q, n) ∈ c.blocks) (free : blk ∈ s.freeBlocks) :
    q + n ≤ blk ∨ blk + BLKHDR + (s.mem blk).size + BLKHDR ≤ q := by
  obtain ⟨d, hd, free⟩ := (holds.mem_freeBlocks room).mp free
  have inside := (holds.sound d hd).fill.area_inside (frees_subset free)
  have low := (holds.sound c hc).block block
  have start : d.start = d.addr + CHKHDR := rfl
  unfold OVERHEAD at low
  rcases holds.far_or_same hd hc with rfl | far
  · have apart := (holds.sound d hd).fill.behind.apart (blocks_subset block) (frees_subset free)
      (blocks_frees blkhdr_pos block free)
    omega
  · have far : d.addr + p.chunk ≤ c.addr ∨ c.addr + p.chunk ≤ d.addr := far
    omega

/-- What lies within a free block of a chunk is recovered. -/
theorem recovered (hc : c ∈ cs) (within : Within BLKHDR c.start c.tiles blk n) :
    s.Recovered (blk + BLKHDR) n := by
  obtain ⟨g, k, free, low, high⟩ := within
  have size := (holds.sound c hc).laid.free free
  refine ⟨g, (holds.mem_freeBlocks room).mpr ⟨c, hc, size.symm ▸ free⟩, ?_, ?_⟩
  · exact Nat.add_le_add_right low BLKHDR
  · rw [size]
    omega

end State.Holds

section

variable (room : OVERHEAD ≤ p.chunk) (holds : s.Holds p cs)
include room holds

/-- The block that is handed out is as large as the request rounded up, which a chunk can have. -/
theorem State.Holds.obtains {s' : State} (does : s.rtMalloc p n = some (s', q)) (found : q ≠ 0) :
    (s'.mem (q - BLKHDR)).size = State.roundUp n ∧ State.roundUp n ≤ p.chunk - OVERHEAD := by
  constructor
  · obtain ⟨s₁, q₁, does₁, ⟨rfl, -, -⟩ | ⟨xs, c, ys, b, ts', rfl, -, taken, rfl, holds', -⟩⟩ :=
      rtMalloc_spec room holds n
    · cases does.symm.trans does₁
      exact absurd rfl found
    · cases does.symm.trans does₁
      exact ((holds'.sound _ (List.mem_append_right xs List.mem_cons_self)).laid.block
        ((blocks_take taken).mem_iff.mpr List.mem_cons_self)).2.1
  · by_contra large
    rw [← lessOverhead_eq room p.chunk_lt, not_le] at large
    rw [State.rtMalloc, if_pos large] at does
    cases does
    exact found rfl

/-- The block of a request that is not rounded to nothing can be freed. -/
theorem State.Holds.serves (some : 0 < n) (fits : n ≤ 2 ^ 32 - MINSIZE) : s.Serves p n := by
  have large := le_roundUp fits
  obtain ⟨s', q, does, ⟨rfl, -, -⟩ | ⟨xs, c, ys, b, ts', rfl, -, taken, rfl, holds', -⟩⟩ :=
    rtMalloc_spec room holds n
  · exact ⟨s', 0, does, .inl rfl⟩
  · have mem : (b + BLKHDR, State.roundUp n) ∈ Chunk.blocks ⟨c.addr, ts'⟩ :=
      (blocks_take taken).mem_iff.mpr List.mem_cons_self
    have size := (holds.obtains room does (Nat.ne_of_gt (Nat.add_pos_right b blkhdr_pos))).1
    obtain ⟨s'', frees, holds'', -⟩ := rtFree_spec room holds' mem (Nat.lt_of_lt_of_le some large)
    refine ⟨s', _, does, .inr ⟨?_, s'', frees, ?_⟩⟩
    · rw [size]
      exact large
    · rw [size]
      rw [Nat.add_sub_cancel] at holds''
      exact holds''.recovered room (List.mem_append_right xs List.mem_cons_self)
        (Within.freed blkhdr_pos mem)

/-- A request that is rounded to nothing is refused, or its block cannot be freed. -/
theorem State.Holds.serves_nothing (nothing : State.roundUp n = 0) :
    s.Serves p n ↔ s.freeBlocks = [] := by
  constructor
  · intro ⟨s₁, q₁, does₁, served⟩
    refine List.eq_nil_iff_forall_not_mem.mpr fun blk free => ?_
    obtain ⟨d, hd, free⟩ := (holds.mem_freeBlocks room).mp free
    obtain ⟨s', q, does, ⟨rfl, -, none⟩ | ⟨xs, c, ys, b, ts', rfl, -, taken, rfl, holds', -⟩⟩ :=
      rtMalloc_spec room holds n
    · have refused := take_none_frees (none (nothing ▸ Nat.zero_le _) d hd) _ free
      rw [nothing] at refused
      exact refused (Nat.zero_le _)
    · cases does.symm.trans does₁
      have mem : (b + BLKHDR, State.roundUp n) ∈ Chunk.blocks ⟨c.addr, ts'⟩ :=
        (blocks_take taken).mem_iff.mpr List.mem_cons_self
      rw [nothing] at mem
      have inside : ⟨c.addr, ts'⟩ ∈ xs ++ ⟨c.addr, ts'⟩ :: ys :=
        List.mem_append_right xs List.mem_cons_self
      have some : b + BLKHDR ≠ 0 := Nat.ne_of_gt (Nat.add_pos_right b blkhdr_pos)
      obtain ⟨-, s'', frees, blk', free', low, high⟩ := served.resolve_left some
      cases (rtFree_empty (holds'.sound _ inside) mem).symm.trans frees
      have apart := holds'.clear room inside mem free'
      have := blkhdr_pos
      omega
  · intro none
    obtain ⟨s', q, does, ⟨rfl, -, -⟩ | ⟨xs, c, ys, b, ts', rfl, -, taken, -⟩⟩ :=
      rtMalloc_spec room holds n
    · exact ⟨s', 0, does, .inl rfl⟩
    · obtain ⟨k, free, -⟩ := take_free taken
      have hc : c ∈ xs ++ c :: ys := List.mem_append_right xs List.mem_cons_self
      have size := (holds.sound c hc).laid.free free
      have mem := (holds.mem_freeBlocks room).mpr ⟨c, hc, size.symm ▸ free⟩
      rw [none] at mem
      cases mem

end

namespace Machine

variable {M : Machine}

/-- In every run: a request is refused, or served by a block that is large enough and that
`rt_free` takes back, exactly if it is not rounded to nothing or there is no free block. -/
theorem malloc_every_size (room : OVERHEAD ≤ p.chunk) {M₀ : Machine} (init : M₀.Initial)
    {tr : List (Record Machine Event)} (run : Run (step p) (Allowed p) M₀ tr M) (size : UInt32) :
    M.state.Serves p size.toNat ↔
      (0 < size.toNat ∧ size.toNat ≤ 2 ^ 32 - MINSIZE) ∨ M.state.freeBlocks = [] := by
  obtain ⟨cs, lost, ok⟩ := Valid.run room init run
  by_cases fits : 0 < size.toNat ∧ size.toNat ≤ 2 ^ 32 - MINSIZE
  · exact iff_of_true (ok.holds.serves room fits.1 fits.2) (.inl fits)
  · have nothing : State.roundUp size.toNat = 0 := by
      have bound := size.toNat_lt
      unfold MINSIZE at fits
      unfold State.roundUp MINSIZE
      dsimp only
      omega
    rw [ok.holds.serves_nothing room nothing]
    exact (or_iff_right fits).symm

/-- A chunk is there, and a block is in use in it. -/
theorem malloc_every_size_used :
    ∃ tr M, Run (step {}) (Allowed {}) unloaded tr M ∧ M.live = [(0x1020, 20)] ∧
      M.state.Serves {} 100 := by
  obtain ⟨tr, M, run, test⟩ := Run.of_execute (step {}) (Allowed {}) unloaded
    [.init 0x1000, .malloc 20] (fun M => M.live = [(0x1020, 20)]) (by decide +kernel)
  have served := (malloc_every_size (by decide) unloaded_initial run 100).mpr (.inl (by decide))
  exact ⟨tr, M, run, of_decide_eq_true test, served⟩

/-- 0 and 0xfffffff8 are rounded to nothing, and a free block is there. -/
theorem nothing_is_lost :
    ∃ tr M, Run (step {}) (Allowed {}) unloaded tr M ∧
      ¬M.state.Serves {} 0 ∧ ¬M.state.Serves {} 0xfffffff8 := by
  obtain ⟨tr, M, run, test⟩ := Run.of_execute (step {}) (Allowed {}) unloaded
    [.init 0x1000, .malloc 20] (fun M => M.state.freeBlocks ≠ []) (by decide +kernel)
  have some := of_decide_eq_true test
  obtain ⟨cs, lost, ok⟩ := Valid.run (by decide) unloaded_initial run
  refine ⟨tr, M, run, fun served => some ?_, fun served => some ?_⟩
  · exact (ok.holds.serves_nothing (by decide) (by decide)).mp served
  · exact (ok.holds.serves_nothing (by decide) (by decide)).mp served

end Machine

end Rtai.Heap
