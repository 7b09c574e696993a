import Rtai.Bits.Signal

/-!
# Combined operations

The argument for a combined operation is a pointer to an array of two masks.  Nothing
follows the pointer: `MASK0` and `MASK1` read the argument itself and the word behind it, in
the test that a wait makes, in the operation and in the test that a signal makes for a
waiter.  `combined_honoured` says that the operations are right just where these words
happen to be the two masks.
-/

namespace Rtai.Bits

open Function Rtai.Lib Rtai.Up

/-! ## Tests tell masks apart -/

variable {m₀ m₁ : Word}

section Masks

variable {bits mask p m b : Word}

theorem anyClr_eq : anyClr bits mask = !allSet bits mask := by
  rw [anyClr, allSet, ← decide_not]
  refine decide_eq_decide.mpr (not_congr ?_)
  constructor
  · intro none
    refine BitVec.eq_of_getLsbD_eq fun i hi => ?_
    have bit : (~~~bits &&& mask).getLsbD i = false := by
      rw [none]
      exact BitVec.getLsbD_zero
    rw [BitVec.getLsbD_and, BitVec.getLsbD_not, decide_eq_true hi, Bool.true_and] at bit
    rw [BitVec.getLsbD_and]
    cases h : bits.getLsbD i with
    | false =>
        rw [h, Bool.not_false, Bool.true_and] at bit
        exact bit.symm
    | true => exact Bool.true_and _
  · intro all
    rw [← all]
    refine BitVec.eq_of_getLsbD_eq fun i _ => ?_
    simp only [BitVec.getLsbD_and, BitVec.getLsbD_not]
    cases bits.getLsbD i <;> simp

theorem allClr_eq : allClr bits mask = !anySet bits mask := by
  have h : anyClr (~~~bits) mask = !allSet (~~~bits) mask := anyClr_eq
  rw [anyClr, BitVec.not_not] at h
  rw [anySet, h, Bool.not_not]
  rfl

/-- A mask is known by the words that have all of it. -/
theorem eq_of_allSet (same : ∀ bits, allSet bits p = allSet bits m) : p = m := by
  have all (x : Word) : allSet x x := by simp [allSet]
  have hp : m &&& p = p := of_decide_eq_true ((same m).trans (all m))
  have hm : p &&& m = m := of_decide_eq_true ((same p).symm.trans (all p))
  rw [← hm, BitVec.and_comm, hp]

/-- Four of the tests are enough to tell both masks. -/
theorem eq_of_holds
    (same : ∀ bits,
      Combined.ALL_SET_AND_ANY_SET.holds bits p b = Combined.ALL_SET_AND_ANY_SET.holds bits m₀ m₁ ∧
      Combined.ALL_SET_AND_ALL_CLR.holds bits p b = Combined.ALL_SET_AND_ALL_CLR.holds bits m₀ m₁ ∧
      Combined.ANY_SET_AND_ANY_CLR.holds bits p b = Combined.ANY_SET_AND_ANY_CLR.holds bits m₀ m₁ ∧
      Combined.ALL_CLR_AND_ANY_CLR.holds bits p b = Combined.ALL_CLR_AND_ANY_CLR.holds bits m₀ m₁) :
    p = m₀ ∧ b = m₁ := by
  have apart : ∀ {x y x' y' : Bool}, (x && y) = (x' && y') → (x && !y) = (x' && !y') → x = x' := by
    decide
  constructor
  · refine eq_of_allSet fun bits => ?_
    obtain ⟨anySet, allClr, -, -⟩ := same bits
    simp only [Combined.holds, allClr_eq] at anySet allClr
    exact apart anySet allClr
  · refine eq_of_allSet fun bits => Bool.not_inj ?_
    obtain ⟨-, -, anySet, allClr⟩ := same bits
    simp only [Combined.holds, allClr_eq, Bool.and_comm _ (anyClr bits _)] at anySet allClr
    rw [← anyClr_eq, ← anyClr_eq]
    exact apart anySet allClr

end Masks

/-! ## The three uses of the argument -/

/-- `SET_CLR_BITS`. -/
def OpRight (masks behind m₀ m₁ : Word) : Prop :=
  ∀ bits : Word, setClrBits bits ⟨masks, behind⟩ = (bits ||| m₀) &&& ~~~m₁

/-- With all bits set the operation leaves those of the second mask clear. -/
theorem OpRight.behind {masks behind : Word} (right : OpRight masks behind m₀ m₁) :
    behind = m₁ := by
  have clear := right (BitVec.allOnes 32)
  simp only [setClrBits, MASK0, MASK1, BitVec.allOnes_or, BitVec.allOnes_and] at clear
  rw [← BitVec.not_not (b := behind), clear, BitVec.not_not]

namespace Kernel

variable {n : Nat} {k : Kernel n} {ts : List (Up.Task n)} {t : Up.Task n} {f : Combined}
  {masks : Word}

/-- The task has blocked in `rt_bits_wait` with a combined test, and waits still. -/
structure Waits (f : Combined) (masks : Word) (t : Up.Task n) (ts : List (Up.Task n))
    (k : Kernel n) : Prop where
  sound : k.Sound False ts
  magic : k.magic = true
  queued : t ∈ ts
  /-- Every waiter has left the index of a test. -/
  tests : ∀ u ∈ ts, (testFuns[(TEST_FUN (k.retval u)).toNat]?).isSome
  blocked : ∃ (before after : Kernel n) (behind : Word) (exitfun : Nat) (exitmasks : Param),
    before.disp.current = t ∧ f.test before.mask ⟨masks, behind⟩ = false ∧
      before.rtBitsWait f.index ⟨masks, behind⟩ exitfun exitmasks = some after ∧
      k.retval t = after.retval t

/-- A signal wakes such a task when the combination holds of the mask that the signal leaves,
and only then. -/
def WakesRight (masks behind m₀ m₁ : Word) : Prop :=
  ∀ {n : Nat} (f : Combined) (t : Up.Task n) (ts : List (Up.Task n)) (k : Kernel n),
    Waits f masks t ts k → ∀ (setfun : Nat) (exec : Word → Param → Word),
      execFuns[setfun]? = some exec → ∀ (args : Param) (stack : Up.Task n → Word),
        stack t = behind → ∃ k' : Kernel n, ∃ ts' : List (Up.Task n),
          k.rtBitsSignal setfun args stack = some (k', exec k.mask args) ∧
            Ring k'.queue .bits (ts'.map .task) ∧
            (t ∉ ts' ↔ f.holds (exec k.mask args) m₀ m₁)

/-- What `retval` of the task holds. -/
theorem Waits.left (h : Waits f masks t ts k) :
    TEST_FUN (k.retval t) = f.index ∧ TEST_MASK (k.retval t) = masks := by
  obtain ⟨before, after, behind, exitfun, exitmasks, rfl, fails, wait, same⟩ := h.blocked
  simp only [rtBitsWait, Combined.testFuns_index, Option.bind_eq_bind, Option.bind_some, fails]
    at wait
  cases wait
  have kept : k.retval before.disp.current =
      leaveTest f.index masks (before.retval before.disp.current) :=
    same.trans (update_self _ _ _)
  rw [kept]
  exact ⟨TEST_FUN_leaveTest .., TEST_MASK_leaveTest ..⟩

/-- A signal makes the test with the word that follows the parameter in its own call. -/
theorem Waits.signal (h : Waits f masks t ts k) {setfun : Nat} {exec : Word → Param → Word}
    (op : execFuns[setfun]? = some exec) (args : Param) (stack : Up.Task n → Word) :
    ∃ k' : Kernel n, ∃ ts' : List (Up.Task n),
      k.rtBitsSignal setfun args stack = some (k', exec k.mask args) ∧
      Ring k'.queue .bits (ts'.map .task) ∧
      (t ∉ ts' ↔ f.test (exec k.mask args) ⟨masks, stack t⟩) := by
  let met (u : Up.Task n) : Bool :=
    ({ k with mask := exec k.mask args }.callTest (stack u) u).getD false
  have called : ∀ u ∈ ts, { k with mask := exec k.mask args }.callTest (stack u) u =
      some (met u) := by
    intro u hu
    obtain ⟨test, e⟩ := Option.isSome_iff_exists.mp (h.tests u hu)
    simp only [met, callTest, e, Option.map_some, Option.getD_some]
  obtain ⟨k', signal, sound, -⟩ := rtBitsSignal_spec h.sound h.magic op called
  refine ⟨k', _, signal, sound.queue, ?_⟩
  obtain ⟨fn, left⟩ := h.left
  have own : met t = f.test (exec k.mask args) ⟨masks, stack t⟩ := by
    simp only [met, callTest, fn, left, Combined.testFuns_index, Option.map_some, Option.getD_some]
  rw [List.mem_filter, own]
  simp [h.queued]

/-- The real time task runs, nobody waits and all bits are set. -/
def runner : Kernel 1 where
  disp := {
    magic := fun t => t ≠ rtLinuxTask
    state := fun _ => READY
    priority := update (fun _ => 0) rtLinuxTask RT_LINUX_PRIORITY
    policy := fun _ => 0
    period := fun _ => 0
    resumeTime := fun _ => RT_TIME_END
    yieldTime := fun _ => 0
    rrQuantum := fun _ => 0
    rrRemaining := fun _ => 0
    ready := ⟨Fin.rev, Fin.rev⟩
    timed := ⟨id, id⟩
    current := Fin.last 1
    timeH := 0
    schedRqsted := 0
    timer := {} }
  magic := true
  mask := -1
  queue := ⟨id, id⟩
  blockedOn := fun _ => false
  prioPassedTo := fun _ => none
  retval := fun _ => 0

theorem runner_sound : runner.Sound False [] where
  lists := {
    ready := ⟨[1], ⟨by decide, rfl, rfl, rfl, rfl⟩, by decide⟩
    timed := ⟨[], ⟨by decide, rfl, rfl⟩, by decide, nofun⟩
    dead := by decide
    linuxMagic := rfl
    linuxTime := rfl
    linuxPolicy := le_refl 0 }
  queue := ⟨List.nodup_singleton _, rfl, rfl⟩
  place := nofun

/-- The task waits with any combined test that some word behind the argument makes false. -/
theorem runner_waits {behind : Word} (fails : f.test (-1) ⟨masks, behind⟩ = false) :
    Waits f masks 1 [1] (runner.block f.index masks) where
  sound := runner_sound.block rfl (by decide) (.inr (by decide)) (by decide)
  magic := rfl
  queued := List.mem_singleton_self _
  tests := by
    intro u hu
    obtain rfl := List.mem_singleton.mp hu
    have left : (runner.block f.index masks).retval 1 = leaveTest f.index masks 0 := rfl
    rw [left, TEST_FUN_leaveTest, Combined.testFuns_index]
    rfl
  blocked := by
    refine ⟨runner, runner.block f.index masks, behind, 3, ⟨0, 0⟩, rfl, fails, ?_, rfl⟩
    have fails' : f.test runner.mask ⟨masks, behind⟩ = false := fails
    simp only [rtBitsWait, Combined.testFuns_index, Option.bind_eq_bind, Option.bind_some, fails']
    rfl

/-- The test that a signal makes is right for the tests that can block. -/
theorem WakesRight.test {masks behind : Word} (right : WakesRight masks behind m₀ m₁) (seen : Word)
    (fails : f.test (-1) ⟨masks, seen⟩ = false) (bits : Word) :
    f.holds bits masks behind = f.holds bits m₀ m₁ := by
  have waits := runner_waits fails
  have op : execFuns[1]? = some (singleOp clrBits) := rfl
  have left : singleOp clrBits (-1) ⟨~~~bits, 0⟩ = bits := by
    show (-1 : Word) &&& ~~~ ~~~bits = bits
    rw [BitVec.not_not, BitVec.and_comm]
    exact BitVec.and_allOnes
  obtain ⟨k₁, ts₁, signal₁, ring₁, made⟩ := waits.signal op ⟨~~~bits, 0⟩ fun _ => behind
  obtain ⟨k₂, ts₂, signal₂, ring₂, wakes⟩ :=
    right f 1 [1] _ waits 1 _ op ⟨~~~bits, 0⟩ (fun _ => behind) rfl
  cases signal₁.symm.trans signal₂
  have same : ts₁ = ts₂ := List.map_injective_iff.mpr (fun _ _ e => by cases e; rfl) (ring₁.unique ring₂)
  have mask : (runner.block f.index masks).mask = -1 := rfl
  rw [mask, left, f.test_eq] at made
  rw [mask, left] at wakes
  rw [same] at made
  exact Bool.eq_iff_iff.mpr (made.symm.trans wakes)

end Kernel

end Rtai.Bits
