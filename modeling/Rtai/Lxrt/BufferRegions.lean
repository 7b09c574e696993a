import Rtai.Lxrt.Buffers
import Mathlib.Algebra.Ring.Nat

/-!
# The two regions of an LXRT task

The buffers begin as the halves of one block.  As long as no call asks for more than a half
both stay where they are, and the deletion frees the block.  A buffer that is grown is freed
as if it were a block: the first takes the second with it, and the second is no block.
-/

namespace Rtai.Lxrt.Buffers

open Function Rtai.Lib

/-- The byte is one of the first `max_msg_size[i]` of `msg_buf[i]`. -/
def Memory.Region (m : Memory) (i : Fin 2) (x : Int) : Prop :=
  m.msgBuf i ≤ x ∧ x < m.msgBuf i + (m.maxMsgSize i).toInt

structure Memory.Sound (m : Memory) : Prop where
  live : ∀ i, ∃ b ∈ m.blocks, b.frees = 0 ∧ ∀ x, m.Region i x → b.Has x
  disjoint : ∀ x, m.Region 0 x → ¬m.Region 1 x
  accepted : m.refused = false

/-- The bytes copied are in one of the regions, as they were then. -/
def Copy.Inside (c : Copy) : Prop :=
  ∃ i, ∀ x, c.adr ≤ x → x < c.adr + c.size.toInt → c.memory.Region i x

structure State.Kept (s : State) : Prop where
  sound : s.deleted = false → s.memory.Sound
  copies : ∀ c ∈ s.copies, c.memory.Sound ∧ c.Inside
  freed : s.deleted = true → s.memory.refused = false ∧ ∀ b ∈ s.memory.blocks, b.frees = 1

/-! ## Calls that fit -/

/-- A buffer of the size need not be grown. -/
def Memory.Holds (m : Memory) (i : Fin 2) (rsize wsize : Int32) : Prop :=
  State.msgSize rsize wsize > 0 → State.msgSize rsize wsize ≤ m.maxMsgSize i

instance (m : Memory) (i : Fin 2) (rsize wsize : Int32) : Decidable (m.Holds i rsize wsize) :=
  inferInstanceAs (Decidable (_ → _))

/-- The arguments with the pointer to a buffer put in its places. -/
def Memory.pointers (m : Memory) (i : Fin 2) (rsize wsize : Int32) (rbf wbf : Nat)
    (funArgs : Nat → Int32) : Nat → Int32 :=
  State.passBuffer wsize wbf (.ofInt (m.msgBuf i))
    (State.passBuffer rsize rbf (.ofInt (m.msgBuf i)) funArgs)

/-- The arguments that the sizes of the second buffer are read from. -/
def Memory.argsForSecond (m : Memory) (type : UInt64) (funArgs : Nat → Int32) : Nat → Int32 :=
  m.pointers 0 (rsize1 type funArgs) (wsize1 type funArgs) (uspRbf1 type) (uspWbf1 type) funArgs

/-- No buffer has to be grown for the call. -/
def Fits (s : State) : Event → Prop
  | .call type funArgs _ =>
      needToRW type = true →
        s.memory.Holds 0 (rsize1 type funArgs) (wsize1 type funArgs) ∧
        s.memory.Holds 1 (rsize2 type (s.memory.argsForSecond type funArgs))
          (wsize2 type (s.memory.argsForSecond type funArgs))
  | _ => True

instance (s : State) : (e : Event) → Decidable (Fits s e)
  | .call _ _ _ => inferInstanceAs (Decidable (_ → _ ∧ _))
  | .ret _ => inferInstanceAs (Decidable True)
  | .delete => inferInstanceAs (Decidable True)

section

variable {m : Memory} {i : Fin 2} {rsize wsize : Int32}

theorem Memory.Holds.read (h : m.Holds i rsize wsize) (positive : rsize > 0) :
    rsize ≤ m.maxMsgSize i := by
  simp only [Memory.Holds, State.msgSize, gt_iff_lt, Int32.lt_iff_toInt_lt, Int32.le_iff_toInt_le] at *
  split at h
  · exact h positive
  · have := h (by omega)
    omega

theorem Memory.Holds.written (h : m.Holds i rsize wsize) (positive : wsize > 0) :
    wsize ≤ m.maxMsgSize i := by
  simp only [Memory.Holds, State.msgSize, gt_iff_lt, Int32.lt_iff_toInt_lt, Int32.le_iff_toInt_le] at *
  split at h
  · have := h (by omega)
    omega
  · exact h positive

theorem Memory.grow_of_le {msgSize : Int32} {adr : Int} (h : msgSize ≤ m.maxMsgSize i) :
    m.grow i msgSize adr = some m := by
  have small : ¬msgSize > m.maxMsgSize i := by
    simp only [gt_iff_lt, Int32.lt_iff_toInt_lt, Int32.le_iff_toInt_le] at *
    omega
  simp [Memory.grow, small]

end

/-! ## What a call that fits does -/

/-- The state differs from `s` only by copies, all to or from the buffers as they are. -/
structure Copied (s s' : State) : Prop where
  memory : s'.memory = s.memory
  deleted : s'.deleted = s.deleted
  copies : ∀ c ∈ s'.copies, c ∈ s.copies ∨
    c.memory = s.memory ∧ ∃ i, c.adr = s.memory.msgBuf i ∧ c.size ≤ s.memory.maxMsgSize i

variable {size : Int32}

namespace Copied

variable {s s' s'' : State}

theorem refl (s : State) : Copied s s := ⟨rfl, rfl, fun _ h => .inl h⟩

theorem trans (h : Copied s s') (h' : Copied s' s'') : Copied s s'' where
  memory := h'.memory.trans h.memory
  deleted := h'.deleted.trans h.deleted
  copies := by
    intro c mem
    cases h'.copies c mem with
    | inl old => exact h.copies c old
    | inr new =>
        rw [h.memory] at new
        exact .inr new

theorem copy {i : Fin 2} (s : State) (h : size ≤ s.memory.maxMsgSize i) :
    Copied s (s.copy i size) where
  memory := rfl
  deleted := rfl
  copies := by
    intro c mem
    simp only [State.copy, List.mem_append, List.mem_singleton] at mem
    cases mem with
    | inl old => exact .inl old
    | inr new =>
        subst new
        exact .inr ⟨rfl, i, rfl, h⟩

end Copied

section

variable {s s' : State} {i : Fin 2} {rsize wsize : Int32} {rbf wbf : Nat} {adr : Int}
  {funArgs funArgs' : Nat → Int32} {out : Output} {outs : Fin 2 → Output}

theorem State.passBuffer_of_not_pos {pointer : Int32} {bf : Nat} (h : ¬size > 0) :
    passBuffer size bf pointer funArgs = funArgs := if_neg h

theorem State.buffer_of_holds (holds : s.memory.Holds i rsize wsize)
    (h : s.buffer i rsize wsize rbf wbf adr funArgs = some (s', funArgs', out)) :
    Copied s s' ∧ funArgs' = s.memory.pointers i rsize wsize rbf wbf funArgs ∧
      out.size = wsize := by
  simp only [State.buffer] at h
  split at h
  case isTrue positive =>
    rw [Memory.grow_of_le (holds positive)] at h
    simp only [Option.bind_eq_bind, Option.bind_some, Option.pure_def, Option.some.injEq,
      Prod.mk.injEq] at h
    obtain ⟨after, args, put⟩ := h
    refine ⟨?_, args.symm, put ▸ rfl⟩
    subst after
    split
    case isTrue reads => exact Copied.copy s (holds.read reads.1)
    case isFalse => exact Copied.refl s
  case isFalse none =>
    simp only [Option.some.injEq, Prod.mk.injEq] at h
    obtain ⟨after, args, put⟩ := h
    subst after args put
    have neither : ¬rsize > 0 ∧ ¬wsize > 0 := by
      simp only [msgSize, gt_iff_lt, Int32.lt_iff_toInt_lt] at *
      split at none <;> omega
    refine ⟨Copied.refl s, ?_, rfl⟩
    rw [Memory.pointers, passBuffer_of_not_pos neither.1, passBuffer_of_not_pos neither.2]

/-- What is left of a call to do fits into the buffers. -/
def State.Pending (m : Memory) (call : Option (Fin 2 → Output)) : Prop :=
  ∀ outs, call = some outs → ∀ i, (outs i).size > 0 → (outs i).size ≤ m.maxMsgSize i

theorem State.lxrtResume_of_fits {type : UInt64} {adr : Fin 2 → Int}
    (fits : Fits s (.call type funArgs adr)) (h : s.lxrtResume type funArgs adr = some s') :
    Copied s s' ∧ Pending s.memory s'.call := by
  simp only [State.lxrtResume] at h
  split at h
  case isTrue needed =>
    obtain ⟨first, second⟩ := fits needed
    simp only [Option.bind_eq_bind, Option.bind_eq_some_iff, Option.pure_def,
      Option.some.injEq, Prod.exists] at h
    obtain ⟨s₁, args₁, out₁, h₁, s₂, args₂, out₂, h₂, rfl⟩ := h
    obtain ⟨copied₁, rfl, size₁⟩ := buffer_of_holds first h₁
    obtain ⟨copied₂, -, size₂⟩ := buffer_of_holds (by rw [copied₁.memory]; exact second) h₂
    have copied := copied₁.trans copied₂
    refine ⟨⟨copied.memory, copied.deleted, copied.copies⟩, ?_⟩
    intro outs outs_eq i positive
    cases outs_eq
    match i with
    | 0 =>
        change out₁.size > 0 at positive
        rw [size₁] at positive
        exact size₁ ▸ first.written positive
    | 1 =>
        change out₂.size > 0 at positive
        rw [size₂] at positive
        exact size₂ ▸ second.written positive
  case isFalse =>
    cases h
    refine ⟨⟨rfl, rfl, fun _ h => .inl h⟩, ?_⟩
    intro outs outs_eq i positive
    cases outs_eq
    cases positive

theorem State.copyOut_copied {m : Memory} (same : s.memory = m)
    (fits : (outs i).size > 0 → (outs i).size ≤ m.maxMsgSize i) : Copied s (s.copyOut outs i) := by
  simp only [State.copyOut]
  split
  case isTrue writes => exact Copied.copy s (same ▸ fits writes.1)
  case isFalse => exact Copied.refl s

@[simp] theorem State.copyOut_call : (s.copyOut outs i).call = s.call := by
  simp only [copyOut]
  split <;> rfl

theorem State.lxrtResumeEnd_copied {aborted : Bool}
    (fits : ∀ i, (outs i).size > 0 → (outs i).size ≤ s.memory.maxMsgSize i) :
    Copied s (s.lxrtResumeEnd outs aborted) ∧ (s.lxrtResumeEnd outs aborted).call = none := by
  have start : Copied s { s with call := none } := ⟨rfl, rfl, fun _ h => .inl h⟩
  cases aborted with
  | true => exact ⟨start, by simp [lxrtResumeEnd]⟩
  | false =>
      have first := start.trans (copyOut_copied start.memory (fits 0))
      have second := first.trans (copyOut_copied first.memory (fits 1))
      simp only [lxrtResumeEnd, Bool.false_eq_true, if_false]
      exact ⟨second, by simp⟩

end

/-! ## Runs -/

/-- The two regions are where they were at the start. -/
structure Steady (m : Memory) (s : State) : Prop where
  memory : s.deleted = false → s.memory = m
  freed : s.deleted = true → s.memory = m.rtFree (m.msgBuf 0)
  copies : ∀ c ∈ s.copies, c.memory = m ∧
    ∃ i, c.adr = m.msgBuf i ∧ c.size ≤ m.maxMsgSize i
  idle : s.deleted = true → s.call = none
  pending : State.Pending m s.call

section

variable {m : Memory} {s s' : State} {e : Event}

theorem Steady.copied (h : Steady m s) (alive : s.deleted = false) (c : Copied s s')
    (pending : State.Pending m s'.call) : Steady m s' := by
  have same := h.memory alive
  have alive' : s'.deleted = false := c.deleted.trans alive
  refine ⟨fun _ => c.memory.trans same, ?_, ?_, ?_, pending⟩
  · intro dead
    cases alive'.symm.trans dead
  · intro d mem
    cases c.copies d mem with
    | inl old => exact h.copies d old
    | inr new =>
        rw [same] at new
        exact new
  · intro dead
    cases alive'.symm.trans dead

theorem Steady.step (h : Steady m s) (fits : Fits s e) (stepped : step e s = some s') :
    Steady m s' := by
  cases e with
  | call type funArgs adr =>
      simp only [Buffers.step] at stepped
      split at stepped
      case isTrue ready =>
        have alive := Bool.eq_false_of_not_eq_true ready.2
        obtain ⟨copied, pending⟩ := State.lxrtResume_of_fits fits stepped
        rw [h.memory alive] at pending
        exact h.copied alive copied pending
      case isFalse => cases stepped
  | ret aborted =>
      obtain ⟨outs, called, rfl⟩ := Option.map_eq_some_iff.mp stepped
      have alive : s.deleted = false := by
        apply Bool.eq_false_of_not_eq_true
        intro dead
        rw [h.idle dead] at called
        cases called
      have same := h.memory alive
      obtain ⟨copied, ended⟩ :=
        @State.lxrtResumeEnd_copied s outs aborted (same ▸ h.pending outs called)
      refine h.copied alive copied ?_
      rw [ended]
      intro _ none
      cases none
  | delete =>
      simp only [Buffers.step] at stepped
      split at stepped
      case isTrue ready =>
        cases stepped
        have alive := Bool.eq_false_of_not_eq_true ready.2
        refine ⟨?_, ?_, h.copies, fun _ => Option.isNone_iff_eq_none.mp ready.1, h.pending⟩
        · intro alive'
          cases alive'
        · intro _
          rw [State.taskDelete, h.memory alive]
      case isFalse => cases stepped

end

/-- Twice a positive `int` is no more than an `unsigned int` can be. -/
theorem toNat_double (h : 0 < size.toInt) : ((2 * size).toUInt32.toNat : Int) = 2 * size.toInt := by
  have nonneg : 0 ≤ size := Int32.le_iff_toInt_le.mpr (Int.le_of_lt h)
  have below := Int32.toInt_lt size
  have value : (size.toUInt32.toNat : Int) = size.toInt := by
    rw [Int32.toNat_toUInt32_of_le nonneg]
    exact Int.toNat_of_nonneg (Int.le_of_lt h)
  have double : (2 * size).toUInt32.toNat = (2 * size.toUInt32.toNat) % 4294967296 := by
    rw [Int32.toUInt32_mul, UInt32.toNat_mul]
    rfl
  omega

section

variable (maxMsgSize : Int32) (adr : Int)

theorem taskInit_block (i : Fin 2) (x : Int) (h : (taskInit maxMsgSize adr).memory.Region i x) :
    ∀ b ∈ (taskInit maxMsgSize adr).memory.blocks, b.Has x := by
  simp only [taskInit, Memory.Region, List.mem_singleton] at *
  generalize (if maxMsgSize = 0 then MSG_SIZE else maxMsgSize) = size at *
  rintro b rfl
  simp only [Block.Has]
  split at h
  · have double := @toNat_double size (by omega)
    omega
  · have double := @toNat_double size (by omega)
    omega

theorem taskInit_sound : (taskInit maxMsgSize adr).memory.Sound where
  live := by
    intro i
    have inside := taskInit_block maxMsgSize adr i
    simp only [taskInit, List.mem_singleton, forall_eq, exists_eq_left] at *
    exact ⟨trivial, inside⟩
  disjoint := by
    intro x first second
    have upper := first.2
    have lower := second.1
    simp only [taskInit, if_true, Fin.reduceEq, if_false] at upper lower
    omega
  accepted := rfl

theorem taskInit_steady : Steady (taskInit maxMsgSize adr).memory (taskInit maxMsgSize adr) where
  memory _ := rfl
  freed dead := by cases dead
  copies c mem := by cases mem
  idle dead := by cases dead
  pending := by
    intro outs called
    cases called

/-- The one block is freed when the task is deleted. -/
theorem taskInit_freed :
    let m := (taskInit maxMsgSize adr).memory
    (m.rtFree (m.msgBuf 0)).refused = false ∧
      ∀ b ∈ (m.rtFree (m.msgBuf 0)).blocks, b.frees = 1 := by
  simp [taskInit, Memory.rtFree, Memory.Owns]

end

/-- As long as no call asks for more than `max_msg_size` bytes, the buffers are two disjoint
regions in use, every copy is inside them and the deletion frees their block. -/
theorem buffers_kept {maxMsgSize : Int32} {adr : Int} {tr : List (Record State Event)} {s : State}
    (run : Run step Fits (taskInit maxMsgSize adr) tr s) : s.Kept := by
  have sound := taskInit_sound maxMsgSize adr
  have steady : Steady (taskInit maxMsgSize adr).memory s :=
    run.invariant (P := Steady _) (taskInit_steady maxMsgSize adr) Steady.step
  refine ⟨?_, ?_, ?_⟩
  · intro alive
    rw [steady.memory alive]
    exact sound
  · intro c mem
    obtain ⟨same, i, begins, small⟩ := steady.copies c mem
    rw [Copy.Inside, same]
    refine ⟨sound, i, ?_⟩
    intro x above below
    have := Int32.le_iff_toInt_le.mp small
    exact ⟨by omega, by omega⟩
  · intro dead
    rw [steady.freed dead]
    exact taskInit_freed maxMsgSize adr

/-- The arguments of `rtf_get`. -/
def rtfGetArgs (count : Int32) (i : Nat) : Int32 :=
  if i = 1 then 0 else if i = 2 then 4096 else if i = 3 then count else 0

theorem buffers_kept_small :
    ∃ tr s, Run step Fits (taskInit 0 8192) tr s ∧
      (s.deleted = true ∧ s.copies.length = 1) ∧ s.Kept := by
  have ⟨tr, s, run, test⟩ := Run.of_execute step Fits (taskInit 0 8192)
    [.call (uw1 2 3) (rtfGetArgs 256) (fun _ => 0), .ret false, .delete]
    (fun s => s.deleted && s.copies.length == 1) (by decide)
  exact ⟨tr, s, run, by simpa using test, buffers_kept run⟩

/-- A call that reads more than a half frees both buffers and obtains one. -/
theorem not_kept_large :
    ¬∀ maxMsgSize adr tr s,
      Run step (fun _ _ => True) (taskInit maxMsgSize adr) tr s → s.Kept := by
  intro kept
  have ⟨tr, s, run, test⟩ := Run.of_execute step (fun _ _ => True) (taskInit 0 8192)
    [.call (uw1 2 3) (rtfGetArgs 300) (fun _ => 16384), .ret false]
    (fun s => !s.deleted && s.memory.msgBuf 1 == 8448 && s.memory.maxMsgSize 1 == 256 &&
      s.memory.blocks.all fun b => b.frees != 0 || b.adr == 16384) (by decide)
  simp only [Bool.and_eq_true, Bool.not_eq_true', beq_iff_eq, List.all_eq_true, Bool.or_eq_true,
    bne_iff_ne] at test
  obtain ⟨⟨⟨alive, second⟩, size⟩, others⟩ := test
  obtain ⟨b, mem, inUse, inside⟩ := ((kept 0 8192 tr s run).sound alive).live 1
  have has := inside 8448 (by simp [Memory.Region, second, size])
  cases others b mem with
  | inl freed => exact freed inUse
  | inr new =>
      have low := has.1
      omega

end Rtai.Lxrt.Buffers
