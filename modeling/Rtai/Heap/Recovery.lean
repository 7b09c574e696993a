import Rtai.Heap.Integrity
import Mathlib.Data.List.Find

/-!
# What is freed is recovered

`alloc_in_chk` sets the size of a block to what was asked for also where it did not
split the block: what is left over is lost.  `heap_recovers` holds in runs in which no
request leaves less than a block over: when all blocks are freed, every chunk is one
free block again.
-/

namespace Rtai.Heap

open Function Rtai.Lib

namespace State

/-- The headers from `a` on, each linked to the next. -/
def walk (s : State) : Nat → Nat → List Nat
  | 0, _ => []
  | k + 1, a => if a = 0 then [] else a :: s.walk k (s.mem a).next

/-- The free blocks, in the order in which `rt_malloc` looks at them. -/
def freeBlocks (s : State) : List Nat :=
  (s.walk chunkFuel s.chkList).flatMap fun chk =>
    s.walk ((s.mem chk).size + 1) (s.mem chk).freeList

/-- The free block from which a request is served. -/
def firstFit (size : Nat) (s : State) : Option Nat :=
  s.freeBlocks.find? fun blk => size ≤ (s.mem blk).size

end State

variable {p : Params} {m : Memory} {s : State} {a k size : Nat} {c : Chunk} {cs : List Chunk}
  {t : Tile} {ts : List Tile}

theorem Chain.walk {l : List Nat} (h : Chain s.mem a l) (enough : l.length < k) :
    s.walk k a = l := by
  induction l generalizing a k with
  | nil =>
      obtain ⟨k, rfl⟩ := Nat.exists_eq_succ_of_ne_zero (Nat.ne_of_gt enough)
      exact if_pos h
  | cons c cs ih =>
      obtain ⟨k, rfl⟩ := Nat.exists_eq_succ_of_ne_zero (Nat.ne_of_gt (Nat.zero_lt_of_lt enough))
      obtain ⟨rfl, some, rest⟩ := h
      rw [State.walk, if_neg some, ih rest (Nat.lt_of_succ_lt_succ enough)]

theorem frees_length : (frees BLKHDR a ts).length ≤ ts.length := by
  induction ts generalizing a with
  | nil => exact Nat.le_refl 0
  | cons t ts ih =>
      rw [frees]
      split
      · exact Nat.le_succ_of_le ih
      · exact Nat.succ_le_succ ih

/-- The free blocks of a chunk. -/
def Chunk.free (c : Chunk) : List Nat := (frees BLKHDR c.start c.tiles).map Prod.fst

theorem State.Holds.freeBlocks_eq (room : OVERHEAD ≤ p.chunk) (holds : s.Holds p cs) :
    s.freeBlocks = cs.flatMap Chunk.free := by
  have enough : (cs.map Chunk.addr).length < chunkFuel := by
    rw [List.length_map]
    exact holds.enough room
  rw [freeBlocks, holds.chain.walk enough, List.flatMap_map]
  refine List.flatMap_congr fun c hc => ?_
  have sound := holds.sound c hc
  rw [sound.freeList, sound.limit]
  refine (sound.laid.chain c.start_pos).walk ?_
  rw [List.length_map]
  exact Nat.lt_of_le_of_lt frees_length sound.enough

/-- In a chunk that cannot serve a request nothing is found. -/
theorem Chunk.Sound.find_none (sound : c.Sound p m)
    (none : take BLKHDR MINSIZE size c.start c.tiles = none) :
    c.free.find? (fun blk => size ≤ (m blk).size) = .none := by
  refine List.find?_eq_none.mpr fun f hf => ?_
  obtain ⟨x, mem, rfl⟩ := List.mem_map.mp hf
  rw [decide_eq_true_eq, sound.laid.free mem]
  exact take_none_frees none x mem

/-- The block that serves a request is the first that is found. -/
theorem Chunk.Sound.find_some (sound : c.Sound p m)
    (found : c.tiles.find? (fun t => t.used = false ∧ size ≤ t.size) = some t) :
    ∃ f, c.free.find? (fun blk => size ≤ (m blk).size) = some f ∧ (m f).size = t.size := by
  obtain ⟨f, first⟩ := find_frees BLKHDR c.start found
  refine ⟨f, ?_, sound.laid.free (List.mem_of_find?_eq_some first)⟩
  rw [Chunk.free, List.find?_map]
  refine Option.map_eq_some_iff.mpr ⟨(f, t.size), ?_, rfl⟩
  rw [← first]
  refine List.find?_congr fun x hx => ?_
  show decide (size ≤ (m x.1).size) = _
  rw [sound.laid.free hx]

/-- No bytes are lost if the block that is found is used up, or leaves a block. -/
theorem State.Holds.allExact (room : OVERHEAD ≤ p.chunk) (holds : s.Holds p cs)
    (fits : ∀ blk, s.firstFit size = some blk →
      (s.mem blk).size = size ∨ (s.mem blk).size - size ≥ BLKHDR + MINSIZE) :
    AllExact size cs := by
  rintro xs c ys rfl before t found
  have sound := holds.sound c (List.mem_append_right xs List.mem_cons_self)
  obtain ⟨f, first, e⟩ := sound.find_some found
  rw [← e]
  refine fits f ?_
  have skipped : (xs.flatMap Chunk.free).find? (fun blk => size ≤ (s.mem blk).size) = none := by
    refine List.find?_eq_none.mpr fun blk hb => ?_
    obtain ⟨d, hd, mem⟩ := List.mem_flatMap.mp hb
    have nothing := (holds.sound d (List.mem_append_left _ hd)).find_none (before d hd)
    exact List.find?_eq_none.mp nothing blk mem
  rw [firstFit, holds.freeBlocks_eq room, List.flatMap_append, List.flatMap_cons,
    List.find?_append, skipped, List.find?_append, first]
  rfl

namespace Machine

variable {M : Machine}

/-- A request uses a free block up, or leaves a block of it. -/
def Fitting (p : Params) (M : Machine) : Event → Prop
  | .malloc n => M.Proper p (.malloc n) ∧ ∀ blk,
      M.state.firstFit (State.roundUp n) = some blk →
        M.size blk = State.roundUp n ∨ M.size blk - State.roundUp n ≥ BLKHDR + MINSIZE
  | e => M.Proper p e

/-- Every chunk is one free block, and the statistics say so. -/
structure Recovered (p : Params) (M : Machine) : Prop where
  single : ∀ chk ∈ M.chunks, M.FreeList p chk [chk + CHKHDR] ∧
    M.size (chk + CHKHDR) = (M.state.mem chk).size - OVERHEAD
  leak : M.state.memoryLeak = 0
  overhead : M.state.memoryOverhead = UInt32.ofNat (OVERHEAD * M.chunks.length)
  /-- `rt_free_sysrq_handler` can give a chunk back. -/
  given : M.state.extraChks > 0 → M.chunks ≠ [] →
    ∃ s chk, M.state.rtFreeSysrqHandler p = some (s, some chk)
  /-- A request is served, unless it is refused as too large. -/
  served : M.chunks ≠ [] → ∀ n, 0 < n → n ≤ p.chunk - OVERHEAD →
    State.roundUp n ≤ p.chunk - OVERHEAD → ∃ s q, M.state.rtMalloc p n = some (s, q) ∧ q ≠ 0

theorem Fitting.proper {e : Event} (fitting : M.Fitting p e) : M.Proper p e := by
  cases e with
  | malloc n => exact fitting.1
  | _ => exact fitting

/-- Without a block in use every chunk is unused. -/
theorem Ok.unused (ok : M.Ok p cs) (whole : AllWhole cs) (freed : M.live = []) (hc : c ∈ cs)
    (room : OVERHEAD ≤ p.chunk) : c = .unused p c.addr := by
  have sound := ok.holds.sound c hc
  have live := ok.live
  rw [freed] at live
  have unused : c.blocks = [] := List.flatMap_eq_nil_iff.mp live.eq_nil c hc
  have nonempty : c.tiles ≠ [] := fun none => by
    have fill := sound.fill
    rw [none] at fill
    have e : c.start = c.addr + p.chunk := fill
    have start : c.start = c.addr + CHKHDR := rfl
    unfold OVERHEAD CHKHDR BLKHDR at *
    omega
  have single := sound.fill.single sound.apart (whole c hc) unused nonempty
  have e : c.addr + p.chunk - (c.start + BLKHDR) = p.chunk - OVERHEAD := by
    have start : c.start = c.addr + CHKHDR := rfl
    unfold OVERHEAD
    omega
  rw [e] at single
  obtain ⟨addr, tiles⟩ := c
  cases single
  rfl

theorem Ok.recovered (room : OVERHEAD ≤ p.chunk) (ok : M.Ok p cs) (whole : AllWhole cs)
    (freed : M.live = []) : M.Recovered p := by
  have unused (c : Chunk) (hc : c ∈ cs) := ok.unused whole freed hc room
  have some : M.chunks ≠ [] → ∃ c, c ∈ cs := fun h => by
    rw [ok.chunks] at h
    exact List.exists_mem_of_ne_nil cs fun none => h (by rw [none]; rfl)
  refine ⟨fun chk h => ?_, ?_, ?_, fun extra h => ?_, fun h n positive fits small => ?_⟩
  · rw [ok.chunks] at h
    obtain ⟨c, hc, rfl⟩ := List.mem_map.mp h
    have sound := ok.holds.sound c hc
    have free := ok.freeList hc
    have tiles : c.tiles = [⟨false, p.chunk - OVERHEAD, 0⟩] := congrArg Chunk.tiles (unused c hc)
    have laid := sound.laid
    rw [tiles] at free laid
    refine ⟨free, ?_⟩
    rw [sound.limit]
    exact laid.2.1
  · have live := ok.live
    rw [freed] at live
    rw [ok.holds.leak, live.eq_nil]
    rfl
  · have weights : cs.map Chunk.weight = List.replicate cs.length OVERHEAD := by
      refine List.map_eq_replicate_iff.mpr fun c hc => ?_
      rw [unused c hc]
      rfl
    rw [ok.holds.overhead, weights, List.sum_replicate_nat, ok.chunks, List.length_map,
      Nat.mul_comm]
  · obtain ⟨c, hc⟩ := some h
    obtain ⟨s', out, does, ⟨-, -, nothing, -⟩ | ⟨-, chk, -, -, rfl, -⟩⟩ :=
      rtFreeSysrqHandler_spec room ok.holds
    · exact absurd (unused c hc) (nothing extra c hc)
    · exact ⟨s', chk, does⟩
  · obtain ⟨c, hc⟩ := some h
    obtain ⟨s', q, does, ⟨-, -, nothing⟩ | ⟨-, -, -, b, -, -, -, -, rfl, -⟩⟩ :=
      rtMalloc_spec room ok.holds n
    · have none := nothing small c hc
      rw [unused c hc] at none
      have serves : take BLKHDR MINSIZE (State.roundUp n) (Chunk.unused p c.addr).start
          (Chunk.unused p c.addr).tiles = .some _ := if_pos ⟨rfl, small⟩
      cases none.symm.trans serves
    · exact ⟨s', b + BLKHDR, does, Nat.ne_of_gt (Nat.add_pos_right b blkhdr_pos)⟩

/-- As long as no request leaves less than a block over, everything that is freed is
recovered. -/
theorem heap_recovers (room : OVERHEAD ≤ p.chunk) {M₀ : Machine} (init : M₀.Initial)
    {tr : List (Record Machine Event)} (run : Run (step p) (Fitting p) M₀ tr M)
    (freed : M.live = []) : M.Recovered p := by
  have ok : ∃ cs, M.Ok p cs ∧ AllWhole cs := by
    refine run.invariant (P := fun M => ∃ cs, M.Ok p cs ∧ AllWhole cs) ⟨[], init.ok, nofun⟩
      fun ok fitting h => ?_
    obtain ⟨cs, ok, whole⟩ := ok
    obtain ⟨M₁, cs₁, does, ok₁, kept⟩ := ok.step room fitting.proper
    cases does.symm.trans h
    refine ⟨cs₁, ok₁, kept (fun n e => ?_) whole⟩
    subst e
    exact ok.holds.allExact room fitting.2
  obtain ⟨cs, ok, whole⟩ := ok
  exact ok.recovered room whole freed

instance (M : Machine) : ∀ e, Decidable (M.Fitting p e)
  | .malloc n => inferInstanceAs (Decidable (M.Proper p (.malloc n) ∧
      ∀ blk ∈ M.state.firstFit (State.roundUp n),
        M.size blk = State.roundUp n ∨ M.size blk - State.roundUp n ≥ BLKHDR + MINSIZE))
  | .init chk => inferInstanceAs (Decidable (M.Proper p (.init chk)))
  | .free addr => inferInstanceAs (Decidable (M.Proper p (.free addr)))
  | .allocSysrq chk => inferInstanceAs (Decidable (M.Proper p (.allocSysrq chk)))
  | .freeSysrq => inferInstanceAs (Decidable (M.Proper p .freeSysrq))
  | .write a cell => inferInstanceAs (Decidable (M.Proper p (.write a cell)))

/-- Two blocks are allocated and freed, and the rest of the chunk with them. -/
theorem heap_recovers_freed :
    ∃ tr M, Run (step {}) (Fitting {}) unloaded tr M ∧ M.Recovered {} ∧ M.chunks = [0x1000] ∧
      M.state.maxAllocated = 144 := by
  obtain ⟨tr, M, run, test⟩ := Run.of_execute (step {}) (Fitting {}) unloaded
    [.init 0x1000, .malloc 20, .malloc 100, .free 0x1020, .malloc 32, .free 0x1050, .free 0x1020]
    (fun M => M.live = [] ∧ M.chunks = [0x1000] ∧ M.state.maxAllocated = 144) (by decide +kernel)
  obtain ⟨freed, chunks, max⟩ := of_decide_eq_true test
  exact ⟨tr, M, run, heap_recovers (by decide) unloaded_initial run freed, chunks, max⟩

/-- A request leaves 16 bytes of a chunk over, and the chunk is never whole again. -/
theorem heap_loses :
    ∃ tr M, Run (step {}) (Proper {}) unloaded tr M ∧ M.live = [] ∧ ¬M.Recovered {} := by
  obtain ⟨tr, M, run, test⟩ := Run.of_execute (step {}) (Proper {}) unloaded
    [.init 0x1000, .malloc 0xffd0, .free 0x1020]
    (fun M => M.live = [] ∧ 0x1000 ∈ M.chunks ∧
      M.size (0x1000 + CHKHDR) ≠ (M.state.mem 0x1000).size - OVERHEAD) (by decide +kernel)
  obtain ⟨freed, chunk, small⟩ := of_decide_eq_true test
  exact ⟨tr, M, run, freed, fun recovered => small (recovered.single 0x1000 chunk).2⟩

end Machine

end Rtai.Heap
