import Rtai.Pqueues.Order
import Rtai.Heap.Sizes
import Mathlib.Data.List.Iterate
import Mathlib.Algebra.Order.Ring.Int

/-!
# The slots of a message queue

Three functions work out how wide a slot is.  `mq_open` keeps the width in a `char` and
asks for that much memory per message, `initialise_queue` moves on by the width as a
`char`, and `getnode` by the width as an `unsigned char`.  A queue has the regions it needs
just when the width survives all three and `rt_malloc` can round the size up.
-/

namespace Rtai.Pqueues

open Function Rtai.Lib

/-- The attributes for which the three functions agree.  The slot of a queue with one that is
wider is inside the block only if a chunk is nearly as large as the memory can be. -/
def MqAttr.Agreed (p : Heap.Params) (a : MqAttr) : Prop :=
  a.Narrow ∨ 2 ^ 32 - 96 ≤ p.chunk ∧ a.mqMaxmsg = 1 ∧ 128 ≤ a.slotSize % 256 ∧ a.slotSize % 256 ≤ 240

theorem charOf_of_le {n : Nat} (h : 128 ≤ n % 256) : charOf n = (n % 256 : Nat) - 256 := by
  rw [charOf, if_neg (by omega)]
  rfl

theorem iterate_add_right (w a k : Nat) : (· + w)^[k] a = a + k * w := by
  induction k with
  | zero => rw [iterate_zero, id, Nat.zero_mul, Nat.add_zero]
  | succ k ih => rw [iterate_succ_apply', ih, Nat.succ_mul, Nat.add_assoc]

theorem mem_iterate_add {w n a p : Nat} : p ∈ List.iterate (· + w) a n ↔ ∃ k < n, p = a + k * w := by
  rw [List.mem_iterate]
  refine exists_congr fun k => and_congr_right fun _ => ?_
  rw [iterate_add_right]

namespace QCtrl

variable {q : QCtrl} {p : Nat}

/-! ## What the two loops visit -/

/-- The loop of `getnode` returns the first slot it visits that is spare. -/
theorem getnodeLoop_eq (m : Memory) (size k msg : Nat) :
    getnodeLoop m size k msg = (List.iterate (· + size) msg k).find? fun p => !(m p).hdr.inUse := by
  induction k generalizing msg with
  | zero => rfl
  | succ k ih =>
      rw [getnodeLoop, List.iterate, List.find?_cons, ih]
      cases (m msg).hdr.inUse <;> rfl

/-- The loop of `initialise_queue` clears the headers it visits. -/
theorem initialiseLoop_hdr (size : Int) (k msg : Nat) (m : Memory) :
    (initialiseLoop size k msg m p).hdr =
      if p ∈ List.iterate (fun msg : Nat => ((msg : Int) + size).toNat) msg k then {} else (m p).hdr := by
  induction k generalizing msg m with
  | zero => simp [initialiseLoop]
  | succ k ih =>
      rw [initialiseLoop, ih, List.iterate]
      simp only [List.mem_cons]
      rcases eq_or_ne p msg with rfl | other
      · rw [Memory.setHdr_self, if_pos (Or.inl rfl)]
        split <;> rfl
      · rw [Memory.setHdr_other other]
        simp only [other, false_or]

/-- `initialise_queue` clears the header at the address, whatever is there. -/
def Clears (q : QCtrl) (p : Nat) : Prop := ∀ m : Memory, (q.initialiseQueue m p).hdr = {}

/-- `getnode` may return the address. -/
def HandsOut (q : QCtrl) (p : Nat) : Prop := ∃ m m' : Memory, q.getnode m = some (m', p)

theorem clears_iff (base : q.base ≠ 0) : q.Clears p ↔
    p ∈ List.iterate (fun msg : Nat => ((msg : Int) + charOf q.attrs.slotSize).toNat)
      q.base q.attrs.mqMaxmsg := by
  have hdr (m : Memory) := initialiseLoop_hdr (p := p) (charOf q.attrs.slotSize) q.attrs.mqMaxmsg q.base m
  have cleared (m : Memory) : q.initialiseQueue m =
      initialiseLoop (charOf q.attrs.slotSize) q.attrs.mqMaxmsg q.base m := if_neg base
  constructor
  · intro clears
    by_contra out
    have used := clears fun _ => { hdr := { inUse := true } }
    rw [cleared, hdr, if_neg out] at used
    cases used
  · intro mem m
    rw [cleared, hdr, if_pos mem]

/-- A slot is handed out when it is the only spare one. -/
theorem handsOut_iff : q.HandsOut p ↔ p ∈ List.iterate (· + q.msgSize) q.base q.attrs.mqMaxmsg := by
  constructor
  · intro ⟨m, m', h⟩
    obtain ⟨r, found, e⟩ := Option.map_eq_some_iff.mp h
    cases e
    rw [getnodeLoop_eq] at found
    exact List.mem_of_find?_eq_some found
  · intro mem
    let m : Memory := fun r => { hdr := { inUse := decide (r ≠ p) } }
    have some : ((List.iterate (· + q.msgSize) q.base q.attrs.mqMaxmsg).find?
        fun r => !(m r).hdr.inUse).isSome := List.find?_isSome.mpr ⟨p, mem, by simp [m]⟩
    obtain ⟨r, found⟩ := Option.isSome_iff_exists.mp some
    obtain rfl : r = p := by simpa [m] using List.find?_some found
    refine ⟨m, m.setInUse r true, ?_⟩
    rw [getnode, getnodeLoop_eq, found, Option.map_some]

/-! ## The regions of a queue -/

/-- The regions are the slots of the queue, and lie apart in the memory that was obtained. -/
structure Regions (q : QCtrl) (obtained : Nat) (regions : List Nat) : Prop where
  count : regions.length = q.attrs.mqMaxmsg
  cleared : ∀ p, q.Clears p ↔ p ∈ regions
  handedOut : ∀ p, q.HandsOut p ↔ p ∈ regions
  apart : regions.Pairwise fun p r => p + q.attrs.slotSize ≤ r ∨ r + q.attrs.slotSize ≤ p
  inside : ∀ p ∈ regions, q.base ≤ p ∧ p + q.attrs.slotSize ≤ q.base + obtained

section

variable {obtained : Nat} {regions : List Nat}

theorem slotSize_pos : 0 < q.attrs.slotSize := by
  rw [MqAttr.slotSize, MSG_HDR_SIZE]
  omega

/-- Slots of less than 128 bytes are as wide for all three functions. -/
theorem Regions.narrow (base : q.base ≠ 0) (narrow : q.attrs.Narrow) :
    q.Regions q.attrs.memSize (List.iterate (· + q.attrs.slotSize) q.base q.attrs.mqMaxmsg) := by
  obtain ⟨total, enough⟩ := narrow.memSize
  have short := narrow.1
  have width : q.attrs.slotSize % 256 = q.attrs.slotSize := Nat.mod_eq_of_lt (by omega)
  have char : charOf q.attrs.slotSize = q.attrs.slotSize := by
    rw [charOf_of_lt (by omega), width]
  have size : q.msgSize = q.attrs.slotSize := width
  constructor
  case count => exact List.length_iterate ..
  case cleared =>
    intro p
    rw [clears_iff base, char]
    rfl
  case handedOut =>
    intro p
    rw [handsOut_iff, size]
  case apart =>
    rw [← List.range_map_iterate, List.pairwise_map]
    refine List.pairwise_lt_range.imp fun {i j} lt => .inl ?_
    rw [iterate_add_right, iterate_add_right]
    have := Nat.mul_le_mul_right q.attrs.slotSize (Nat.succ_le_of_lt lt)
    rw [Nat.succ_mul] at this
    omega
  case inside =>
    intro p mem
    obtain ⟨k, lt, rfl⟩ := mem_iterate_add.mp mem
    have := Nat.mul_le_mul_right q.attrs.slotSize (Nat.succ_le_of_lt lt)
    rw [Nat.succ_mul, Nat.mul_comm q.attrs.mqMaxmsg] at this
    omega

/-- One slot is at the base. -/
theorem Regions.single (base : q.base ≠ 0) (one : q.attrs.mqMaxmsg = 1)
    (enough : q.attrs.slotSize ≤ obtained) : q.Regions obtained [q.base] := by
  constructor
  case count => exact one.symm
  case cleared =>
    intro p
    rw [clears_iff base, one]
    rfl
  case handedOut =>
    intro p
    rw [handsOut_iff, one]
    rfl
  case apart => exact List.pairwise_singleton ..
  case inside =>
    intro p mem
    obtain rfl := List.mem_singleton.mp mem
    exact ⟨le_rfl, Nat.add_le_add_left enough _⟩

/-- Regions for more than one slot are as far apart as `getnode` moves on. -/
theorem Regions.narrow_of_many (h : q.Regions obtained regions) (base : q.base ≠ 0)
    (many : 1 < q.attrs.mqMaxmsg) : q.attrs.slotSize < 128 := by
  have first : q.base ∈ regions :=
    (h.handedOut _).mp (handsOut_iff.mpr (mem_iterate_add.mpr ⟨0, by omega, by simp⟩))
  have second : q.base + q.msgSize ∈ regions :=
    (h.handedOut _).mp (handsOut_iff.mpr (mem_iterate_add.mpr ⟨1, many, by simp⟩))
  have size : q.msgSize = q.attrs.slotSize % 256 := rfl
  have positive := slotSize_pos (q := q)
  have moves : q.msgSize ≠ 0 := by
    intro zero
    -- the regions would be one, and would be their own neighbour
    have all (p : Nat) (mem : p ∈ regions) : p = q.base := by
      obtain ⟨k, -, rfl⟩ := mem_iterate_add.mp (handsOut_iff.mp ((h.handedOut p).mpr mem))
      rw [zero, Nat.mul_zero, Nat.add_zero]
    have two : 1 < regions.length := h.count ▸ many
    have apart := List.pairwise_iff_getElem.mp h.apart 0 1 (by omega) two (by omega)
    rw [all _ (List.getElem_mem _), all _ (List.getElem_mem _)] at apart
    omega
  have char : q.attrs.slotSize % 256 < 128 := by
    by_contra negative
    -- `initialise_queue` would go down
    have below (k : Nat) (p : Nat) : p ≤ q.base →
        ∀ r ∈ List.iterate (fun msg : Nat => ((msg : Int) + charOf q.attrs.slotSize).toNat) p k,
          r ≤ q.base := by
      intro le
      induction k generalizing p with
      | zero => nofun
      | succ k ih =>
          intro r mem
          rcases List.mem_cons.mp mem with rfl | mem
          · exact le
          · refine ih _ ?_ r mem
            dsimp only
            rw [charOf_of_le (by omega)]
            omega
    have cleared := (clears_iff base).mp ((h.cleared _).mpr second)
    have := below _ _ le_rfl _ cleared
    omega
  have apart : q.attrs.slotSize ≤ q.msgSize := by
    have distinct : q.base ≠ q.base + q.msgSize := by omega
    have sym : Std.Symm fun p r : Nat => p + q.attrs.slotSize ≤ r ∨ r + q.attrs.slotSize ≤ p :=
      ⟨fun _ _ => Or.symm⟩
    have := h.apart.forall first second distinct
    omega
  omega

/-- For one slot `mq_open` asks for the width as a `char`; a negative one is a size near `2 ^ 32`. -/
theorem queueSize_single {a : MqAttr} (one : a.mqMaxmsg = 1) : a.queueSize =
    if a.slotSize % 256 < 128 then a.slotSize % 256 else 2 ^ 32 - 256 + a.slotSize % 256 := by
  rw [MqAttr.queueSize, one]
  split
  next positive =>
    rw [charOf_of_lt positive]
    omega
  next negative =>
    rw [charOf_of_le (by omega)]
    omega

/-- The regions are inside the block only if they are narrow, or there is one and the block nearly
as large as the memory. -/
theorem Regions.agreed (h : q.Regions q.attrs.memSize regions) (base : q.base ≠ 0)
    (room : 0 < q.attrs.mqMaxmsg) : q.attrs.Narrow ∨ q.attrs.mqMaxmsg = 1 ∧
      128 ≤ q.attrs.slotSize % 256 ∧ q.attrs.slotSize % 256 ≤ 240 := by
  have last : q.base + (q.attrs.mqMaxmsg - 1) * q.msgSize ∈ regions :=
    (h.handedOut _).mp (handsOut_iff.mpr (mem_iterate_add.mpr ⟨q.attrs.mqMaxmsg - 1, by omega, rfl⟩))
  have inside := (h.inside _ last).2
  have size : q.msgSize = q.attrs.slotSize % 256 := rfl
  have rounded : q.attrs.memSize ≤ q.attrs.queueSize + 15 ∧ q.attrs.memSize ≤ 2 ^ 32 - 16 ∧
      (2 ^ 32 - 16 < q.attrs.queueSize → q.attrs.memSize = 0) := by
    have bounded : q.attrs.queueSize < 2 ^ 32 := by
      rw [MqAttr.queueSize]
      omega
    unfold MqAttr.memSize Heap.State.roundUp Heap.MINSIZE
    dsimp only
    omega
  have narrow (narrow : q.attrs.slotSize < 128) : q.attrs.Narrow := by
    refine ⟨narrow, ?_⟩
    have whole : q.attrs.slotSize * q.attrs.mqMaxmsg =
        (q.attrs.mqMaxmsg - 1) * q.attrs.slotSize + q.attrs.slotSize := by
      rw [← Nat.succ_mul, Nat.succ_eq_add_one, Nat.sub_add_cancel room, Nat.mul_comm]
    rw [size, Nat.mod_eq_of_lt (by omega)] at inside
    unfold Heap.MINSIZE
    omega
  rcases Nat.lt_or_ge 1 q.attrs.mqMaxmsg with many | few
  · exact .inl (narrow (h.narrow_of_many base many))
  · have one : q.attrs.mqMaxmsg = 1 := by omega
    have asked := queueSize_single one
    have positive := slotSize_pos (q := q)
    rw [one, Nat.sub_self, Nat.zero_mul] at inside
    split at asked
    · exact .inl (narrow (by omega))
    · exact .inr ⟨one, by omega, by omega⟩

end

end QCtrl

/-! ## A queue that is created -/

variable {T : Type} [DecidableEq T]

/-- In every run of the heap: the slots that are cleared and handed out are apart and inside the
block of the queue just when the width of a slot is the same for all three functions and the
size of the queue is not rounded to nothing. -/
theorem slots_laid {p : Heap.Params} (chunk : Heap.OVERHEAD ≤ p.chunk) {M₀ M : Heap.Machine}
    (initial : M₀.Initial) {tr : List (Record Heap.Machine Heap.Event)}
    (heap : Run (Heap.Machine.step p) (Heap.Machine.Allowed p) M₀ tr M) {h : Heap.State}
    {s s' : State T} {self : T} {mq : Nat} {name : Name} {oflags : Oflags}
    {permissions : Permissions} {mqAttr : Option MqAttr} {memPtr : Nat} {attr : MqAttr}
    (given : attr = mqAttr.getD defaultDataQueueAttrs)
    (room : 0 < attr.mqMaxmsg) (long : attr.mqMsgsize < 2 ^ 31)
    (obtains : M.state.rtMalloc p attr.queueSize = some (h, memPtr)) (new : s.nameToId name = none)
    (created : s.mqOpen self name oflags permissions mqAttr memPtr = (s', (mq : Int))) (ok : 0 < mq) :
    (∃ regions, (s'.descr (mq - 1)).data.Regions (h.mem (memPtr - Heap.BLKHDR)).size regions) ↔
      attr.Agreed p := by
  obtain ⟨nonzero, s₁, s₂, -, rfl, -, -, data⟩ := Session.mqOpen_created new created ok
  rw [← given] at data
  simp only [State.createQueue, State.setDescr, update_self] at data
  have attrs : (s'.descr (mq - 1)).data.attrs = { attr with mqCurmsgs := 0 } :=
    congrArg QCtrl.attrs data
  have base : (s'.descr (mq - 1)).data.base ≠ 0 := by
    rw [data]
    exact nonzero
  have memSize : (s'.descr (mq - 1)).data.attrs.memSize = attr.memSize := by
    rw [attrs]
    rfl
  obtain ⟨cs, lost, valid⟩ := Heap.Machine.Valid.run chunk initial heap
  obtain ⟨size, fits⟩ := valid.holds.obtains chunk obtains nonzero
  have size : (h.mem (memPtr - Heap.BLKHDR)).size = attr.memSize := size
  have fits : attr.memSize ≤ p.chunk - Heap.OVERHEAD := fits
  -- A block of a wider slot is of nearly all the memory.
  have large (one : attr.mqMaxmsg = 1) (low : 128 ≤ attr.slotSize % 256)
      (high : attr.slotSize % 256 ≤ 240) : 2 ^ 32 - 128 ≤ attr.memSize := by
    rw [MqAttr.memSize, QCtrl.queueSize_single one, if_neg (by omega)]
    unfold Heap.State.roundUp Heap.MINSIZE
    dsimp only
    omega
  rw [size, ← memSize]
  constructor
  · rintro ⟨regions, h⟩
    have agreed := h.agreed base (by rw [attrs]; exact room)
    rw [attrs] at agreed
    refine agreed.imp_right fun single => ?_
    obtain ⟨one, low, high⟩ := single
    refine ⟨?_, one, low, high⟩
    have large := large one low high
    unfold Heap.OVERHEAD Heap.CHKHDR Heap.BLKHDR at fits
    omega
  · rintro (narrow | ⟨-, one, low, high⟩)
    · exact ⟨_, .narrow base (by rw [attrs]; exact narrow)⟩
    · refine ⟨_, .single base (by rw [attrs]; exact one) ?_⟩
      rw [memSize, attrs]
      have large := large one low high
      have width : attr.slotSize = attr.mqMsgsize + 16 := rfl
      show attr.slotSize ≤ attr.memSize
      omega

/-- Ten messages of 250 bytes. -/
def tenMessages : MqAttr := { mqMaxmsg := 10, mqMsgsize := 250 }

/-- A queue with the given attributes, in the first block of the chunk at 0x1000. -/
def opened (attr : MqAttr) : State Unit × Int :=
  ({} : State Unit).mqOpen () [1] { rdwr := true, creat := true } { rusr := true, wusr := true }
    (some attr) 0x1020

/-- A chunk comes, and serves a request. -/
theorem obtained (size : Nat) (served : (Heap.Machine.step {} (.init 0x1000) Heap.Machine.unloaded).any
      fun M => (M.state.rtMalloc {} size).any fun r => r.2 = 0x1020) :
    ∃ tr M h, Run (Heap.Machine.step {}) (Heap.Machine.Allowed {}) Heap.Machine.unloaded tr M ∧
      M.state.rtMalloc {} size = some (h, 0x1020) := by
  obtain ⟨M, stepped, served⟩ := (Option.any_eq_true _ _).mp served
  obtain ⟨⟨h, q⟩, does, place⟩ := (Option.any_eq_true _ _).mp served
  obtain rfl : q = 0x1020 := of_decide_eq_true place
  have allowed : Heap.Machine.Allowed {} Heap.Machine.unloaded (.init 0x1000) :=
    fun _ => ⟨by decide, by decide, nofun⟩
  exact ⟨_, M, h, Run.nil.snoc allowed stepped, does⟩

/-- Ten messages of 50 bytes are laid out as they should be. -/
theorem slots_laid_default : ∃ (M : Heap.Machine) (h : Heap.State),
    M.state.rtMalloc {} defaultDataQueueAttrs.queueSize = some (h, 0x1020) ∧
    (opened defaultDataQueueAttrs).2 = 1 ∧
    ∃ regions, ((opened defaultDataQueueAttrs).1.descr 0).data.Regions
      (h.mem (0x1020 - Heap.BLKHDR)).size regions := by
  obtain ⟨tr, M, h, heap, obtains⟩ := obtained defaultDataQueueAttrs.queueSize (by decide +kernel)
  have created : ({} : State Unit).mqOpen () [1] { rdwr := true, creat := true }
      { rusr := true, wusr := true } (some defaultDataQueueAttrs) 0x1020 =
        ((opened defaultDataQueueAttrs).1, ((1 : Nat) : Int)) := rfl
  have given : defaultDataQueueAttrs = (some defaultDataQueueAttrs).getD defaultDataQueueAttrs := rfl
  have laid := slots_laid (by decide) Heap.Machine.unloaded_initial heap given (by decide)
    (by decide) obtains rfl created (by decide)
  have narrow : defaultDataQueueAttrs.Narrow := ⟨by decide, by decide⟩
  exact ⟨M, h, obtains, rfl, laid.mpr (.inl narrow)⟩

/-- Slots of 266 bytes are ten bytes apart. -/
theorem slots_overlap : ∃ tr M h,
    Run (Heap.Machine.step {}) (Heap.Machine.Allowed {}) Heap.Machine.unloaded tr M ∧
    M.state.rtMalloc {} tenMessages.queueSize = some (h, 0x1020) ∧ (opened tenMessages).2 = 1 ∧
    ¬∃ regions, ((opened tenMessages).1.descr 0).data.Regions
      (h.mem (0x1020 - Heap.BLKHDR)).size regions := by
  obtain ⟨tr, M, h, heap, obtains⟩ := obtained tenMessages.queueSize (by decide +kernel)
  refine ⟨tr, M, h, heap, obtains, rfl, fun ⟨regions, h⟩ => ?_⟩
  have narrow := h.narrow_of_many (by decide) (by decide)
  exact absurd narrow (by decide)

end Rtai.Pqueues
