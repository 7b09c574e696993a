import Rtai.Heap.Integrity

/-!
# The reservoir of chunks

`rt_malloc` pends a request for a chunk when the reserve is low, and `rt_free` one to give
a chunk back when it is large; the two handlers serve the requests.  A machine with the
pending requests says when a request is pending that `rt_malloc` wants, and that a chunk
that is given back leaves enough where the test of `rt_free` does not wrap and its outcome
still holds when the handler runs (`reservoir_kept`).
-/

namespace Rtai.Heap

open Function Rtai.Lib

/-- `total_available - (memory_leak + memory_overhead)`. -/
def State.available (s : State) : UInt32 :=
  s.totalAvailable - (s.memoryLeak + s.memoryOverhead)

/-- The heap and the pending requests.  A request is pending from `rt_pend_linux_srq` to the
end of the handler. -/
structure Reservoir where
  machine : Machine
  /-- `alloc_sysrq.srq` is pending. -/
  allocPended : Bool := false
  /-- `free_sysrq.srq` is pending. -/
  freePended : Bool := false

namespace Reservoir

def state (R : Reservoir) : State := R.machine.state

/-- `rt_pend_linux_srq` is called where `no_chk` is set, and the handlers serve the request. -/
def note (R : Reservoir) (M : Machine) : Event → Reservoir
  | .malloc _ =>
      { R with machine := M, allocPended := R.allocPended || M.state.allocNoChk ≠ R.state.allocNoChk }
  | .free _ =>
      { R with machine := M, freePended := R.freePended || M.state.freeNoChk ≠ R.state.freeNoChk }
  | .allocSysrq _ => { R with machine := M, allocPended := false }
  | .freeSysrq => { R with machine := M, freePended := false }
  | .init _ | .write _ _ => { R with machine := M }

def step (p : Params) (e : Event) (R : Reservoir) : Option Reservoir := do
  let M ← R.machine.step p e
  return R.note M e

/-- A handler runs if its request is pending. -/
def Allowed (p : Params) (R : Reservoir) : Event → Prop
  | .allocSysrq chk => R.allocPended = true ∧ R.machine.Allowed p (.allocSysrq chk)
  | .freeSysrq => R.freePended = true
  | e => R.machine.Allowed p e

structure Initial (R : Reservoir) : Prop where
  machine : R.machine.Initial
  totalAvailable : R.state.totalAvailable = 0
  allocNoChk : R.state.allocNoChk = 0
  allocPended : R.allocPended = false
  freePended : R.freePended = false

/-- `rt_malloc` looks for a block, and finds the reserve low. -/
def FindsLow (p : Params) (r : Record Reservoir Event) : Prop :=
  ∃ size, r.event = .malloc size ∧ State.roundUp size ≤ lessOverhead p.chunk ∧
    r.post.state.available ≤ p.lowDataMark

/-- `rt_free_sysrq_handler` gives a chunk back. -/
def Gives (r : Record Reservoir Event) : Prop :=
  r.event = .freeSysrq ∧ r.post.machine.chunks ≠ r.pre.machine.chunks

/-- Where `rt_free` pends the giving back of a chunk its difference does not wrap, and nothing
is allocated until the handler runs. -/
def Careful (p : Params) (r : Record Reservoir Event) : Prop :=
  match r.event with
  | .free _ => r.pre.freePended = false → r.post.freePended = true →
      p.granularity.toNat + r.post.state.memoryLeak.toNat + r.post.state.memoryOverhead.toNat ≤
        r.post.state.totalAvailable.toNat
  | .malloc _ => r.pre.freePended = true → r.post.machine.live = r.pre.machine.live
  | _ => True

end Reservoir

variable {p : Params} {s s' : State} {q n chk : Nat} {c : Chunk} {cs xs ys : List Chunk}

/-! ## The reserve -/

namespace State.Holds

/-- The chunks fit in memory. -/
theorem total_lt (holds : s.Holds p cs) : cs.length * p.chunk < 2 ^ 32 := by
  let bytes : List Nat := cs.flatMap fun c => List.range' c.addr p.chunk
  have inside : bytes ⊆ List.range' 1 (2 ^ 32 - 1) := by
    intro x hx
    obtain ⟨c, hc, mem⟩ := List.mem_flatMap.mp hx
    have sound := holds.sound c hc
    have low := sound.positive
    have high := sound.below
    have mem := List.mem_range'_1.mp mem
    exact List.mem_range'_1.mpr (by omega)
  have nodup : bytes.Nodup := by
    refine List.nodup_flatMap.mpr ⟨fun c _ => List.nodup_range', holds.far.imp ?_⟩
    intro c d far x hc hd
    have hc := List.mem_range'_1.mp hc
    have hd := List.mem_range'_1.mp hd
    have far : c.addr + p.chunk ≤ d.addr ∨ d.addr + p.chunk ≤ c.addr := far
    omega
  have le := (List.subperm_of_subset nodup inside).length_le
  have count : bytes.length = cs.length * p.chunk := by
    rw [List.length_flatMap, List.map_congr_left fun c _ => List.length_range', List.map_const',
      List.sum_replicate]
    rfl
  rw [List.length_range', count] at le
  omega

/-- The blocks in use and the headers fit in the chunks. -/
theorem accounts_le (sound : ∀ c ∈ cs, c.Sound p s.mem) :
    ((allocated cs).map Prod.snd).sum + (cs.map Chunk.weight).sum ≤ cs.length * p.chunk := by
  induction cs with
  | nil => exact Nat.zero_le _
  | cons c cs ih =>
      have rest := ih fun d hd => sound d (List.mem_cons_of_mem c hd)
      have here := (sound c List.mem_cons_self).fill.sum_blocks
      have start : c.start = c.addr + CHKHDR := rfl
      have weight : c.weight = CHKHDR + BLKHDR * c.tiles.length := rfl
      have more : ((allocated (c :: cs)).map Prod.snd).sum =
          (c.blocks.map Prod.snd).sum + ((allocated cs).map Prod.snd).sum := by
        rw [allocated, List.flatMap_cons, List.map_append, List.sum_append]
        rfl
      have here : c.start + BLKHDR * c.tiles.length + (c.blocks.map Prod.snd).sum ≤
        c.addr + p.chunk := here
      rw [more, List.map_cons, List.sum_cons, List.length_cons, Nat.succ_mul]
      omega

/-- What is available, in bytes: nothing wraps. -/
theorem available (holds : s.Holds p cs)
    (total : s.totalAvailable = UInt32.ofNat (cs.length * p.chunk)) :
    s.available.toNat + (((allocated cs).map Prod.snd).sum + (cs.map Chunk.weight).sum) =
      cs.length * p.chunk := by
  have lt := holds.total_lt
  have le := accounts_le holds.sound
  have small : ((allocated cs).map Prod.snd).sum + (cs.map Chunk.weight).sum < UInt32.size :=
    Nat.lt_of_le_of_lt le lt
  rw [State.available, total, holds.leak, holds.overhead, ← UInt32.ofNat_add, UInt32.toNat_sub,
    UInt32.toNat_ofNat_of_lt' lt, UInt32.toNat_ofNat_of_lt' small]
  omega

/-- What is available with an unused chunk, and without it. -/
theorem given (holds : s.Holds p (xs ++ Chunk.unused p chk :: ys))
    (total : s.totalAvailable = UInt32.ofNat ((xs ++ Chunk.unused p chk :: ys).length * p.chunk))
    (holds' : s'.Holds p (xs ++ ys))
    (total' : s'.totalAvailable = UInt32.ofNat ((xs ++ ys).length * p.chunk)) :
    s.available.toNat + OVERHEAD = s'.available.toNat + p.chunk := by
  have before := holds.available total
  have behind := holds'.available total'
  have weight : (Chunk.unused p chk).weight = OVERHEAD := rfl
  have length : (xs ++ Chunk.unused p chk :: ys).length = (xs ++ ys).length + 1 := by
    simp only [List.length_append, List.length_cons]
    omega
  rw [allocated_unused, length, Nat.succ_mul] at before
  simp only [List.map_append, List.map_cons, List.sum_append, List.sum_cons, weight] at before behind
  omega

end State.Holds

/-! ## The counts -/

theorem pendAllocSysrq_low (low : (s.pendAllocSysrq p).available ≤ p.lowDataMark) :
    (s.pendAllocSysrq p).allocNoChk ≠ 0 := by
  have same : (s.pendAllocSysrq p).available = s.available := by
    unfold State.pendAllocSysrq
    split
    · rfl
    · rfl
  rw [same] at low
  by_cases idle : s.allocNoChk = 0
  · rw [State.pendAllocSysrq, if_pos ⟨low, idle⟩]
    simp [idle]
  · rw [State.pendAllocSysrq, if_neg fun h => idle h.2]
    exact idle

theorem pendAllocSysrq_counts :
    (s.pendAllocSysrq p).totalAvailable = s.totalAvailable ∧
      ((s.pendAllocSysrq p).allocNoChk = s.allocNoChk ∨
        s.allocNoChk = 0 ∧ (s.pendAllocSysrq p).allocNoChk = 1) := by
  unfold State.pendAllocSysrq
  split
  next h => exact ⟨rfl, .inr ⟨h.2, by simp [h.2]⟩⟩
  next => exact ⟨rfl, .inl rfl⟩

/-- Only the last test of `rt_malloc` concerns the reservoir. -/
theorem rtMalloc_counts (room : OVERHEAD ≤ p.chunk) (holds : s.Holds p cs)
    (does : s.rtMalloc p n = some (s', q)) :
    (s' = s ∧ State.roundUp n > lessOverhead p.chunk) ∨
      ∃ s₀ : State, s' = s₀.pendAllocSysrq p ∧ s₀.totalAvailable = s.totalAvailable ∧
        s₀.allocNoChk = s.allocNoChk := by
  rcases rtMalloc_cases room holds n with ⟨does', large⟩ | ⟨-, ⟨does', -⟩ |
      ⟨xs, c, ys, b, ts', s₁, -, -, -, does', reshaped⟩⟩
  · cases does.symm.trans does'
    exact .inl ⟨rfl, large⟩
  · cases does.symm.trans does'
    exact .inr ⟨s, rfl, rfl, rfl⟩
  · cases does.symm.trans does'
    refine .inr ⟨s₁.countAllocated (State.roundUp n), rfl, ?_, ?_⟩
    · show s₁.totalAvailable = _
      rw [reshaped.rest]
    · show s₁.allocNoChk = _
      rw [reshaped.rest]

/-- What `rt_free` compares with `low_data_mark`. -/
def State.beyond (p : Params) (s : State) : UInt32 :=
  s.totalAvailable - (p.granularity + s.memoryLeak + s.memoryOverhead)

/-- Where the difference does not wrap there is more than a chunk available. -/
theorem State.beyond_available (enough : p.lowDataMark ≤ s.beyond p)
    (fits : p.granularity.toNat + s.memoryLeak.toNat + s.memoryOverhead.toNat ≤
      s.totalAvailable.toNat) : p.lowDataMark.toNat + p.chunk ≤ s.available.toNat := by
  have enough := UInt32.le_iff_toNat_le.mp enough
  have total := s.totalAvailable.toNat_lt
  rw [State.beyond, UInt32.toNat_sub, UInt32.toNat_add, UInt32.toNat_add] at enough
  rw [State.available, UInt32.toNat_sub, UInt32.toNat_add, Params.chunk]
  omega

theorem rtFree_counts (room : OVERHEAD ≤ p.chunk) (sound : c.Sound p s.mem)
    (mem : (q, n) ∈ c.blocks) (some : 0 < n) (does : s.rtFree p q = .some s') :
    s'.totalAvailable = s.totalAvailable ∧ s'.allocNoChk = s.allocNoChk ∧
      (s'.freeNoChk ≠ s.freeNoChk → p.lowDataMark ≤ s'.beyond p) := by
  obtain ⟨s₁, does', reshaped⟩ := rtFree_does room sound mem some
  cases does.symm.trans does'
  have rest := reshaped.rest
  have total : s₁.totalAvailable = s.totalAvailable := by rw [rest]
  have noChk : s₁.allocNoChk = s.allocNoChk := by rw [rest]
  unfold State.pendFreeSysrq
  split
  next pends => exact ⟨total, noChk, fun _ => pends.1⟩
  next =>
    refine ⟨total, noChk, fun pended => absurd ?_ pended⟩
    show s₁.freeNoChk = s.freeNoChk
    rw [rest]

theorem addChunk_counts (room : OVERHEAD ≤ p.chunk) (holds : s.Holds p cs) (some : chk ≠ 0)
    (fresh : Fresh p chk (cs.map Chunk.addr)) (does : s.addChunk p chk = .some s') :
    s'.totalAvailable = s.totalAvailable + p.granularity ∧ s'.allocNoChk = s.allocNoChk := by
  obtain ⟨s₁, does', -, -, mem, list, rfl⟩ := addChunk_spec room holds some fresh
  cases does.symm.trans does'
  exact ⟨rfl, rfl⟩

/-! ## What holds in every run -/

namespace Reservoir

variable {R R' : Reservoir} {M : Machine} {e : Event} {lost : List Nat} {failed : Prop}

/-- The chunks are counted, and where a request for a chunk is noted it is pending unless
one has failed. -/
structure Ok (p : Params) (R : Reservoir) (cs : List Chunk) (lost : List Nat) (failed : Prop) :
    Prop where
  valid : R.machine.Valid p cs lost
  total : R.state.totalAvailable = UInt32.ofNat (cs.length * p.chunk)
  idle : R.state.allocNoChk = 0 → R.allocPended = false ∧ ¬failed
  busy : R.state.allocNoChk ≠ 0 → (R.allocPended = true ↔ ¬failed)

theorem step_eq (stepped : R.machine.step p e = some M) : R.step p e = some (R.note M e) := by
  rw [step, stepped]
  rfl

/-- A chunk more. -/
theorem total_succ : UInt32.ofNat (cs.length * p.chunk) + p.granularity =
    UInt32.ofNat ((cs.length + 1) * p.chunk) := by
  rw [Nat.succ_mul, UInt32.ofNat_add, Params.chunk, UInt32.ofNat_toNat]

/-- While the giving back of a chunk is pending, `low_data_mark` bytes remain without it. -/
def Enough (p : Params) (R : Reservoir) : Prop :=
  R.freePended = true → p.lowDataMark.toNat + p.chunk ≤ R.state.available.toNat

theorem Enough.mono (enough : R.Enough p) (same : R'.freePended = R.freePended)
    (more : R.state.available.toNat ≤ R'.state.available.toNat) : R'.Enough p :=
  fun pended => (enough (same ▸ pended)).trans more

namespace Ok

variable {cs' : List Chunk} {lost' : List Nat}

/-- The request for a chunk is as it was. -/
theorem steady (ok : R.Ok p cs lost failed) (valid : R'.machine.Valid p cs' lost')
    (total : R'.state.totalAvailable = UInt32.ofNat (cs'.length * p.chunk))
    (noChk : R'.state.allocNoChk = R.state.allocNoChk) (pended : R'.allocPended = R.allocPended) :
    R'.Ok p cs' lost' failed := by
  refine ⟨valid, total, ?_, ?_⟩
  · rw [noChk, pended]
    exact ok.idle
  · rw [noChk, pended]
    exact ok.busy

/-- More is available where the blocks in use and the headers take less of the chunks. -/
theorem available_le {failed' : Prop} (ok : R.Ok p cs lost failed) (ok' : R'.Ok p cs' lost' failed')
    (less : ((allocated cs').map Prod.snd).sum + (cs'.map Chunk.weight).sum + cs.length * p.chunk ≤
      ((allocated cs).map Prod.snd).sum + (cs.map Chunk.weight).sum + cs'.length * p.chunk) :
    R.state.available.toNat ≤ R'.state.available.toNat := by
  have before := ok.valid.holds.available ok.total
  have behind := ok'.valid.holds.available ok'.total
  show R.machine.state.available.toNat ≤ R'.machine.state.available.toNat
  omega

/-- `rt_malloc` pends a request if there is none. -/
theorem requested (ok : R.Ok p cs lost failed) (valid : M.Valid p cs' lost)
    (length : cs'.length = cs.length)
    (counts : M.state.totalAvailable = R.state.totalAvailable ∧
      (M.state.allocNoChk = R.state.allocNoChk ∨
        R.state.allocNoChk = 0 ∧ M.state.allocNoChk = 1)) :
    (R.note M (.malloc n)).Ok p cs' lost failed := by
  obtain ⟨total, same | ⟨idle, one⟩⟩ := counts
  · refine ok.steady valid ?_ same ?_
    · rw [length]
      exact total.trans ok.total
    · simp [note, same]
  · refine ⟨valid, ?_, fun none => ?_, fun _ => ?_⟩
    · rw [length]
      exact total.trans ok.total
    · have none : M.state.allocNoChk = 0 := none
      rw [one] at none
      cases none
    · have fine := (ok.idle idle).2
      simp [note, one, idle, fine]

variable (room : OVERHEAD ≤ p.chunk) (ok : R.Ok p cs lost failed)
include room ok

theorem malloc (n : Nat) :
    ∃ R' cs', R.step p (.malloc n) = some R' ∧ R'.Ok p cs' lost failed ∧
      (State.roundUp n ≤ lessOverhead p.chunk → R'.state.available ≤ p.lowDataMark →
        R'.state.allocNoChk ≠ 0) ∧ R'.freePended = R.freePended ∧
      (R'.machine.live = R.machine.live → R.state.available.toNat ≤ R'.state.available.toNat) := by
  have counted {s : State} {q : Nat} (does : R.state.rtMalloc p n = some (s, q)) :
      (s.totalAvailable = R.state.totalAvailable ∧ (s.allocNoChk = R.state.allocNoChk ∨
        R.state.allocNoChk = 0 ∧ s.allocNoChk = 1)) ∧
      (State.roundUp n ≤ lessOverhead p.chunk → s.available ≤ p.lowDataMark →
        s.allocNoChk ≠ 0) := by
    rcases rtMalloc_counts room ok.valid.holds does with ⟨rfl, large⟩ | ⟨s₀, rfl, total, noChk⟩
    · exact ⟨⟨rfl, .inl rfl⟩, fun fits => absurd large (Nat.not_lt_of_ge fits)⟩
    · have total : s₀.totalAvailable = R.state.totalAvailable := total
      have noChk : s₀.allocNoChk = R.state.allocNoChk := noChk
      rw [← total, ← noChk]
      exact ⟨pendAllocSysrq_counts, fun _ => pendAllocSysrq_low⟩
  rcases ok.valid.malloc_cases room n with ⟨s, does, -, valid⟩ |
      ⟨xs, c, ys, b, ts', s', s, rfl, -, -, does, -, -, valid⟩
  · have stepped : R.machine.step p (.malloc n) = some { R.machine with state := s } := by
      rw [Machine.step, does]
      rfl
    have ok' := ok.requested (n := n) valid rfl (counted does).1
    exact ⟨_, cs, step_eq stepped, ok', (counted does).2, rfl, fun _ => ok.available_le ok' le_rfl⟩
  · have found : b + BLKHDR ≠ 0 := Nat.ne_of_gt (Nat.add_pos_right b blkhdr_pos)
    have stepped : R.machine.step p (.malloc n) = some { R.machine with
        state := s
        live := (b + BLKHDR, n) :: R.machine.live } := by
      rw [Machine.step, does]
      show some { R.machine with
        state := s
        live := if b + BLKHDR = 0 then R.machine.live else (b + BLKHDR, n) :: R.machine.live } = _
      rw [if_neg found]
    refine ⟨_, _, step_eq stepped, ok.requested valid ?_ (counted does).1, (counted does).2, rfl,
      fun same => absurd same (List.cons_ne_self _ _)⟩
    simp only [List.length_append, List.length_cons]

/-- A block is released, and the giving back of a chunk is pended where the test says so. -/
theorem free (mem : ∃ x ∈ R.machine.live, x.1 = q) :
    ∃ R' cs' lost', R.step p (.free q) = some R' ∧ R'.Ok p cs' lost' failed ∧
      R.state.available.toNat ≤ R'.state.available.toNat ∧
      (R.freePended = false → R'.freePended = true → p.lowDataMark ≤ R'.state.beyond p) := by
  rcases ok.valid.free_cases room mem with ⟨does, -, -, valid⟩ |
      ⟨xs, c, ys, n, s', s, rfl, block, some, does, -, reshaped, valid⟩
  · have stepped : R.machine.step p (.free q) = some { R.machine with
        live := R.machine.live.eraseP fun x => x.1 = q } := by
      rw [Machine.step, does]
      rfl
    have ok' : (R.note _ (.free q)).Ok p _ _ failed := ok.steady valid ok.total rfl rfl
    refine ⟨_, cs, _, step_eq stepped, ok', le_rfl, fun idle pended => ?_⟩
    simp [note, state, idle] at pended
  · have stepped : R.machine.step p (.free q) = .some { R.machine with
        state := s
        live := R.machine.live.eraseP fun x => x.1 = q } := by
      rw [Machine.step, does]
      rfl
    have sound := ok.valid.holds.sound c (List.mem_append_right xs List.mem_cons_self)
    obtain ⟨total, noChk, tested⟩ := rtFree_counts room sound block some does
    have before : R.machine.state.totalAvailable = UInt32.ofNat ((xs ++ (⟨c.addr,
        release BLKHDR (q - BLKHDR) c.start c.tiles⟩ : Chunk) :: ys).length * p.chunk) := by
      have before := ok.total
      simp only [List.length_append, List.length_cons] at before ⊢
      exact before
    have ok' : (R.note _ (.free q)).Ok p _ _ failed :=
      ok.steady valid (total.trans before) noChk rfl
    refine ⟨_, _, _, step_eq stepped, ok', ok.available_le ok' ?_, fun idle pended => tested ?_⟩
    · have less := ((ok.valid.holds.release room block reshaped).2.map Prod.snd).sum_nat
      have fewer : (release BLKHDR (q - BLKHDR) c.start c.tiles).length ≤ c.tiles.length :=
        length_release
      rw [List.map_cons, List.sum_cons] at less
      simp only [less, List.map_append, List.map_cons, List.sum_append, List.sum_cons,
        List.length_append, List.length_cons, Chunk.weight, BLKHDR] at fewer ⊢
      omega
    · have pended : (R.freePended || decide (s.freeNoChk ≠ R.machine.state.freeNoChk)) = true := pended
      rw [idle, Bool.false_or] at pended
      exact of_decide_eq_true pended

/-- A chunk comes. -/
theorem withChunk (some : chk ≠ 0) (fresh : Fresh p chk R.machine.chunks) :
    ∃ s, R.state.addChunk p chk = .some s ∧
      s.totalAvailable = UInt32.ofNat ((cs ++ [Chunk.unused p chk]).length * p.chunk) ∧
      s.allocNoChk = R.state.allocNoChk ∧ R.state.available.toNat ≤ s.available.toNat := by
  have valid := ok.valid
  rw [valid.chunks] at fresh
  obtain ⟨s, does, holds, -⟩ := addChunk_spec room valid.holds some fresh
  obtain ⟨total, noChk⟩ := addChunk_counts room valid.holds some fresh does
  have before : R.machine.state.totalAvailable = UInt32.ofNat (cs.length * p.chunk) := ok.total
  have total : s.totalAvailable =
      UInt32.ofNat ((cs ++ [Chunk.unused p chk]).length * p.chunk) := by
    rw [total, before, total_succ, List.length_append]
    rfl
  have less := holds.given total
    (show R.machine.state.Holds p (cs ++ []) by simpa using valid.holds) (by simpa using before)
  refine ⟨s, does, total, noChk, ?_⟩
  show R.machine.state.available.toNat ≤ s.available.toNat
  omega

theorem init (proper : R.machine.Allowed p (.init chk)) :
    ∃ R' cs', R.step p (.init chk) = some R' ∧ R'.Ok p cs' lost failed ∧
      R'.freePended = R.freePended ∧ R.state.available.toNat ≤ R'.state.available.toNat := by
  by_cases none : chk = 0
  · subst none
    exact ⟨R, cs, step_eq rfl, ok, rfl, le_rfl⟩
  · obtain ⟨s, does, total, noChk, more⟩ := ok.withChunk room none (proper none)
    obtain ⟨s', does', -, valid⟩ := ok.valid.withChunk room none (proper none)
    cases does.symm.trans does'
    have stepped : R.machine.step p (.init chk) = some { R.machine with
        state := s
        chunks := R.machine.withChunk chk } := by
      rw [Machine.step, State.rtMemInitRound, if_neg none, does']
      rfl
    exact ⟨_, _, step_eq stepped, ok.steady valid total noChk rfl, rfl, more⟩

/-- The request for a chunk is served, or it fails. -/
theorem allocSysrq (allowed : R.Allowed p (.allocSysrq chk)) :
    ∃ R' cs', R.step p (.allocSysrq chk) = some R' ∧ R'.Ok p cs' lost (failed ∨ chk = 0) ∧
      R'.freePended = R.freePended ∧ R.state.available.toNat ≤ R'.state.available.toNat := by
  obtain ⟨pended, proper⟩ := allowed
  have busy : R.state.allocNoChk ≠ 0 := by
    intro idle
    have nothing := (ok.idle idle).1
    rw [pended] at nothing
    cases nothing
  have fine : ¬failed := (ok.busy busy).mp pended
  by_cases none : chk = 0
  · subst none
    refine ⟨_, cs, step_eq rfl, ⟨ok.valid, ok.total, fun idle => absurd idle busy, fun _ => ?_⟩,
      rfl, le_rfl⟩
    simp [note]
  · obtain ⟨s, does, total, noChk, more⟩ := ok.withChunk room none (proper none)
    obtain ⟨s', does', -, valid⟩ := ok.valid.withChunk room none (proper none)
    cases does.symm.trans does'
    let s₁ : State := { s with allocNoChk := 0, extraChks := s.extraChks + 1 }
    have holds : s₁.Holds p (cs ++ [Chunk.unused p chk]) :=
      valid.holds.frame (fun _ _ _ _ _ => rfl) rfl rfl rfl
    have stepped : R.machine.step p (.allocSysrq chk) = some { R.machine with
        state := s₁
        chunks := R.machine.withChunk chk } := by
      rw [Machine.step, State.rtAllocSysrqHandler, if_neg none, does']
      rfl
    refine ⟨_, _, step_eq stepped, ⟨⟨holds, valid.chunks, valid.live⟩, total, fun _ => ?_,
      fun busy => absurd rfl busy⟩, rfl, more⟩
    exact ⟨rfl, fun h => h.elim fine none⟩

/-- A chunk is given back, and less is in reserve. -/
theorem freeSysrq :
    ∃ R' cs', R.step p .freeSysrq = some R' ∧ R'.Ok p cs' lost failed ∧ R'.freePended = false ∧
      (R'.machine.chunks = R.machine.chunks ∨
        R.state.available.toNat + OVERHEAD = R'.state.available.toNat + p.chunk) := by
  have valid := ok.valid
  obtain ⟨s, out, does, ⟨rfl, -, -, rfl⟩ | ⟨-, chk, -, -, rfl, -, -, mem, list, counts⟩⟩ :=
    rtFreeSysrqHandler_spec room valid.holds
  · have stepped : R.machine.step p .freeSysrq = some { R.machine with
        state := { R.machine.state with freeNoChk := 0 } } := by
      rw [Machine.step, does]
      rfl
    refine ⟨_, cs, step_eq stepped, ok.steady ?_ ok.total rfl rfl, rfl, .inl rfl⟩
    exact ⟨valid.holds.frame (fun _ _ _ _ _ => rfl) rfl rfl rfl, valid.chunks, valid.live⟩
  · rcases valid.freeSysrq_cases room with ⟨s', does', -⟩ | ⟨xs, chk', ys, s', rfl, does', -, valid'⟩
    · cases does.symm.trans does'
    · cases does.symm.trans does'
      have stepped : R.machine.step p .freeSysrq = some { R.machine with
          state := s
          chunks := R.machine.chunks.erase chk } := by
        rw [Machine.step, does]
        rfl
      have length : (xs ++ Chunk.unused p chk :: ys).length = (xs ++ ys).length + 1 := by
        simp only [List.length_append, List.length_cons]
        omega
      have total : s.totalAvailable = UInt32.ofNat ((xs ++ ys).length * p.chunk) := by
        have before := ok.total
        rw [length, ← total_succ] at before
        have less : s.totalAvailable = R.state.totalAvailable - p.granularity := by
          rw [counts]
          rfl
        rw [less, before]
        grind
      have noChk : s.allocNoChk = R.state.allocNoChk := by
        rw [counts]
        rfl
      exact ⟨_, _, step_eq stepped, ok.steady valid' total noChk rfl, rfl,
        .inr (valid.holds.given ok.total valid'.holds total)⟩

/-- Every step keeps the counts and the request, and a careful one what is in reserve. -/
theorem step (allowed : R.Allowed p e) (stepped : R.step p e = some R') :
    (∃ cs' lost', R'.Ok p cs' lost' (failed ∨ e = .allocSysrq 0)) ∧
      (Careful p ⟨R, e, R'⟩ → R.Enough p → R'.Enough p) := by
  cases e with
  | init chk =>
      obtain ⟨R₁, cs', does, ok', same, more⟩ := ok.init room allowed
      cases does.symm.trans stepped
      exact ⟨⟨cs', lost, by simpa using ok'⟩, fun _ enough => enough.mono same more⟩
  | malloc size =>
      obtain ⟨R₁, cs', does, ok', -, same, more⟩ := ok.malloc room size
      cases does.symm.trans stepped
      refine ⟨⟨cs', lost, by simpa using ok'⟩, fun careful enough pended => ?_⟩
      have more := more (careful (same ▸ pended))
      exact enough.mono same more pended
  | free addr =>
      obtain ⟨R₁, cs', lost', does, ok', more, tested⟩ := ok.free room allowed
      cases does.symm.trans stepped
      refine ⟨⟨cs', lost', by simpa using ok'⟩, fun careful enough pended => ?_⟩
      rcases Bool.eq_false_or_eq_true R.freePended with before | idle
      · exact (enough before).trans more
      · exact State.beyond_available (tested idle pended) (careful idle pended)
  | allocSysrq chk =>
      obtain ⟨R₁, cs', does, ok', same, more⟩ := ok.allocSysrq room allowed
      cases does.symm.trans stepped
      exact ⟨⟨cs', lost, by simpa using ok'⟩, fun _ enough => enough.mono same more⟩
  | freeSysrq =>
      obtain ⟨R₁, cs', does, ok', idle, -⟩ := ok.freeSysrq room
      cases does.symm.trans stepped
      refine ⟨⟨cs', lost, by simpa using ok'⟩, fun _ _ pended => ?_⟩
      rw [idle] at pended
      cases pended
  | write a cell =>
      obtain ⟨M, does, valid, -⟩ := ok.valid.write allowed
      cases (step_eq does).symm.trans stepped
      cases does
      have ok' : (R.note _ (.write a cell)).Ok p cs lost failed := ok.steady valid ok.total rfl rfl
      exact ⟨⟨cs, lost, by simpa using ok'⟩, fun _ enough => enough⟩

end Ok

theorem Initial.ok (init : R.Initial) :
    ∃ cs lost, R.Ok p cs lost (∃ r ∈ ([] : List (Record Reservoir Event)),
      r.event = .allocSysrq 0) := by
  refine ⟨[], [], init.machine.valid, ?_, fun _ => ⟨init.allocPended, by simp⟩,
    fun busy => absurd init.allocNoChk busy⟩
  simpa using init.totalAvailable

/-- In every run: where `rt_malloc` finds the reserve low a request is pending when it returns,
exactly if none has failed before; and a chunk that is given back leaves `low_data_mark`
bytes, where the steps before were careful. -/
theorem reservoir_kept (room : OVERHEAD ≤ p.chunk) {R₀ : Reservoir} (init : R₀.Initial)
    {tr before behind : List (Record Reservoir Event)} {r : Record Reservoir Event}
    (run : Run (step p) (Allowed p) R₀ tr R) (here : tr = before ++ r :: behind) :
    (FindsLow p r →
      (r.post.allocPended = true ↔ ∀ r' ∈ before, r'.event ≠ .allocSysrq 0)) ∧
    ((∀ r' ∈ before, Careful p r') → Gives r → p.lowDataMark ≤ r.post.state.available) := by
  obtain ⟨run, allowed, stepped⟩ := run.before here
  have kept : (∃ cs lost, r.pre.Ok p cs lost (∃ r' ∈ before, r'.event = .allocSysrq 0)) ∧
      ((∀ r' ∈ before, Careful p r') → r.pre.Enough p) := by
    refine run.history (P := fun tr R => (∃ cs lost, R.Ok p cs lost
      (∃ r' ∈ tr, r'.event = .allocSysrq 0)) ∧ ((∀ r' ∈ tr, Careful p r') → R.Enough p))
      ⟨init.ok, fun _ pended => ?_⟩ ?_
    · rw [init.freePended] at pended
      cases pended
    · intro tr R R' e ⟨⟨cs, lost, ok⟩, enough⟩ allowed stepped
      obtain ⟨ok', keeps⟩ := ok.step room allowed stepped
      refine ⟨by simpa [or_and_right, exists_or] using ok', fun careful => ?_⟩
      obtain ⟨before, last⟩ := List.forall_mem_append.mp careful
      exact keeps (last _ (List.mem_singleton_self _)) (enough before)
  obtain ⟨⟨cs, lost, ok⟩, enough⟩ := kept
  constructor
  · rintro ⟨size, event, fits, low⟩
    rw [event] at stepped
    obtain ⟨R', cs', does, ok', busy, -⟩ := ok.malloc room size
    cases does.symm.trans stepped
    simpa using ok'.busy (busy fits low)
  · rintro careful ⟨event, given⟩
    rw [event] at stepped allowed
    obtain ⟨R', cs', does, -, -, same | less⟩ := ok.freeSysrq room
    · cases does.symm.trans stepped
      exact absurd same given
    · cases does.symm.trans stepped
      have enough := enough careful allowed
      rw [UInt32.le_iff_toNat_le]
      omega

instance (R : Reservoir) : ∀ e, Decidable (R.Allowed p e)
  | .allocSysrq chk =>
      inferInstanceAs (Decidable (R.allocPended = true ∧ R.machine.Allowed p (.allocSysrq chk)))
  | .freeSysrq => inferInstanceAs (Decidable (R.freePended = true))
  | .init chk => inferInstanceAs (Decidable (R.machine.Allowed p (.init chk)))
  | .malloc size => inferInstanceAs (Decidable (R.machine.Allowed p (.malloc size)))
  | .free addr => inferInstanceAs (Decidable (R.machine.Allowed p (.free addr)))
  | .write a cell => inferInstanceAs (Decidable (R.machine.Allowed p (.write a cell)))

instance : ∀ e : Event, Decidable (e = .allocSysrq 0)
  | .allocSysrq chk => decidable_of_iff (chk = 0) (by simp)
  | .init _ | .malloc _ | .free _ | .freeSysrq | .write _ _ => .isFalse (by simp)

def unloaded : Reservoir := { machine := Machine.unloaded }

theorem unloaded_initial : unloaded.Initial := ⟨Machine.unloaded_initial, rfl, rfl, rfl, rfl⟩

/-- Four chunks, and the last request takes the fourth. -/
def exhausted : List Event :=
  [.init 0x10000, .init 0x20000, .init 0x30000, .init 0x40000,
    .malloc 0xffe0, .malloc 0xffe0, .malloc 0xffe0, .malloc 0xffe0]

instance (r : Record Reservoir Event) : Decidable (Careful p r) :=
  match r with
  | ⟨R, .free _, R'⟩ => inferInstanceAs (Decidable (R.freePended = false → R'.freePended = true → _ ≤ _))
  | ⟨R, .malloc _, R'⟩ =>
      inferInstanceAs (Decidable (R.freePended = true → R'.machine.live = R.machine.live))
  | ⟨_, .init _, _⟩ | ⟨_, .allocSysrq _, _⟩ | ⟨_, .freeSysrq, _⟩ | ⟨_, .write _ _, _⟩ => .isTrue trivial

/-- The reserve is low, and a request is pending; and of two chunks that have come on request and
are free one is given back. -/
theorem reservoir_kept_low :
    (∃ tr r R, Run (step {}) (Allowed {}) unloaded (tr ++ [r]) R ∧ FindsLow {} r ∧
      r.post.allocPended = true) ∧
    ∃ tr r R, Run (step {}) (Allowed {}) unloaded (tr ++ [r]) R ∧ Gives r ∧
      ({} : Params).lowDataMark ≤ r.post.state.available := by
  constructor
  · obtain ⟨tr, R, run, test⟩ := Run.of_records (step {}) (Allowed {}) unloaded
      (exhausted ++ [.allocSysrq 0x50000]) (fun tr R => tr.all (fun r => r.event ≠ .allocSysrq 0) &&
        (step {} (.malloc 0xffe0) R).any fun R' => R'.state.available ≤ 0x4000) (by decide +kernel)
    obtain ⟨fine, low⟩ := Bool.and_eq_true_iff.mp test
    obtain ⟨R', stepped, low⟩ := (Option.any_eq_true _ _).mp low
    have allowed : Allowed {} R (.malloc 0xffe0) := trivial
    have run' := run.snoc allowed stepped
    have finds : FindsLow {} ⟨R, .malloc 0xffe0, R'⟩ :=
      ⟨0xffe0, rfl, by decide, of_decide_eq_true low⟩
    have kept := (reservoir_kept (by decide) unloaded_initial run' rfl).1 finds
    refine ⟨tr, _, R', run', finds, kept.mpr fun r mem => ?_⟩
    exact of_decide_eq_true (List.all_eq_true.mp fine r mem)
  · obtain ⟨tr, R, run, test⟩ := Run.of_records (step {}) (Allowed {}) unloaded
      [.init 0x10000, .malloc 0xffe0, .allocSysrq 0x20000, .malloc 0xffe0, .allocSysrq 0x30000,
        .free 0x20020] (fun tr R => tr.all (fun r => Careful {} r) && (R.freePended &&
        (step {} .freeSysrq R).any fun R' => R'.machine.chunks ≠ R.machine.chunks))
      (by decide +kernel)
    obtain ⟨careful, test⟩ := Bool.and_eq_true_iff.mp test
    obtain ⟨pended, test⟩ := Bool.and_eq_true_iff.mp test
    obtain ⟨R', stepped, given⟩ := (Option.any_eq_true _ _).mp test
    have allowed : Allowed {} R .freeSysrq := pended
    have run' := run.snoc allowed stepped
    have gives : Gives ⟨R, .freeSysrq, R'⟩ := ⟨rfl, of_decide_eq_true given⟩
    refine ⟨tr, _, R', run', gives, ?_⟩
    refine (reservoir_kept (by decide) unloaded_initial run' rfl).2 (fun r mem => ?_) gives
    exact of_decide_eq_true (List.all_eq_true.mp careful r mem)

/-- A request has failed, and no other is pended. -/
theorem failed_once :
    ∃ tr r R, Run (step {}) (Allowed {}) unloaded (tr ++ [r]) R ∧ FindsLow {} r ∧
      r.post.allocPended = false := by
  obtain ⟨tr, R, run, test⟩ := Run.of_execute (step {}) (Allowed {}) unloaded
    (exhausted ++ [.allocSysrq 0]) (fun R => (step {} (.malloc 16) R).any fun R' =>
      R'.state.available ≤ 0x4000 && !R'.allocPended) (by decide +kernel)
  obtain ⟨R', stepped, test⟩ := (Option.any_eq_true _ _).mp test
  obtain ⟨low, idle⟩ := Bool.and_eq_true_iff.mp test
  have allowed : Allowed {} R (.malloc 16) := trivial
  have run' := run.snoc allowed stepped
  have finds : FindsLow {} ⟨R, .malloc 16, R'⟩ := ⟨16, rfl, by decide, of_decide_eq_true low⟩
  exact ⟨tr, _, R', run', finds, by simpa using idle⟩

/-- There is less than a chunk in reserve, the difference in `rt_free` wraps, and the last
free chunk is given back. -/
theorem given_too_much :
    ∃ tr r R, Run (step {}) (Allowed {}) unloaded (tr ++ [r]) R ∧ Gives r ∧
      r.post.state.available = 0 := by
  obtain ⟨tr, R, run, test⟩ := Run.of_execute (step {}) (Allowed {}) unloaded
    (exhausted ++ [.allocSysrq 0x50000, .malloc 16, .free 0x50020])
    (fun R => R.freePended && (step {} .freeSysrq R).any fun R' =>
      R'.machine.chunks ≠ R.machine.chunks && R'.state.available = 0) (by decide +kernel)
  obtain ⟨pended, test⟩ := Bool.and_eq_true_iff.mp test
  obtain ⟨R', stepped, test⟩ := (Option.any_eq_true _ _).mp test
  obtain ⟨given, empty⟩ := Bool.and_eq_true_iff.mp test
  have allowed : Allowed {} R .freeSysrq := pended
  have run' := run.snoc allowed stepped
  exact ⟨tr, _, R', run', ⟨rfl, of_decide_eq_true given⟩, of_decide_eq_true empty⟩

/-- Both watermarks are missed. -/
theorem watermarks_missed :
    (∃ tr r R, Run (step {}) (Allowed {}) unloaded (tr ++ [r]) R ∧ FindsLow {} r ∧
      r.post.allocPended = false) ∧
    ∃ tr r R, Run (step {}) (Allowed {}) unloaded (tr ++ [r]) R ∧ Gives r ∧
      r.post.state.available < ({} : Params).lowDataMark := by
  refine ⟨failed_once, ?_⟩
  obtain ⟨tr, r, R, run, gives, empty⟩ := given_too_much
  exact ⟨tr, r, R, run, gives, by rw [empty]; decide⟩

end Reservoir

end Rtai.Heap
