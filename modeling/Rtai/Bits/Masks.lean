import Rtai.Bits.Bits

/-!
# Tests of two masks

The sixteen tests and the four operations of `rtai_bits.c` as they are called, and the two
words of `retval` in which a waiter leaves its test.  `MASK0` and `MASK1` take the words at
the address of the parameter: the first is the argument itself, the second what follows it
in the frame of the function that is called.
-/

namespace Rtai.Bits

/-- `unsigned long`. -/
abbrev Word := BitVec 32

/-- The parameter of a test or an operation, and the word behind it. -/
structure Param where
  masks : Word
  behind : Word
deriving DecidableEq

def MASK0 (x : Param) : Word := x.masks

def MASK1 (x : Param) : Word := x.behind

/-! ## The tests -/

def allSetAndAnySet (bits : Word) (masks : Param) : Bool :=
  anySet bits (MASK1 masks) && allSet bits (MASK0 masks)

def allSetAndAllClr (bits : Word) (masks : Param) : Bool :=
  allSet bits (MASK0 masks) && allClr bits (MASK1 masks)

def allSetAndAnyClr (bits : Word) (masks : Param) : Bool :=
  allSet bits (MASK0 masks) && anyClr bits (MASK1 masks)

def anySetAndAllClr (bits : Word) (masks : Param) : Bool :=
  anySet bits (MASK0 masks) && allClr bits (MASK1 masks)

def anySetAndAnyClr (bits : Word) (masks : Param) : Bool :=
  anySet bits (MASK0 masks) && anyClr bits (MASK1 masks)

def allClrAndAnyClr (bits : Word) (masks : Param) : Bool :=
  anyClr bits (MASK1 masks) && allClr bits (MASK0 masks)

def allSetOrAnySet (bits : Word) (masks : Param) : Bool :=
  anySet bits (MASK1 masks) || allSet bits (MASK0 masks)

def allSetOrAllClr (bits : Word) (masks : Param) : Bool :=
  allSet bits (MASK0 masks) || allClr bits (MASK1 masks)

def allSetOrAnyClr (bits : Word) (masks : Param) : Bool :=
  allSet bits (MASK0 masks) || anyClr bits (MASK1 masks)

def anySetOrAllClr (bits : Word) (masks : Param) : Bool :=
  anySet bits (MASK0 masks) || allClr bits (MASK1 masks)

def anySetOrAnyClr (bits : Word) (masks : Param) : Bool :=
  anySet bits (MASK0 masks) || anyClr bits (MASK1 masks)

def allClrOrAnyClr (bits : Word) (masks : Param) : Bool :=
  anyClr bits (MASK1 masks) || allClr bits (MASK0 masks)

/-- A test of one mask, which takes the argument as it is. -/
def single (test : Word → Word → Bool) (bits : Word) (mask : Param) : Bool := test bits mask.masks

/-- The array `test_fun`. -/
def testFuns : List (Word → Param → Bool) :=
  [single allSet, single anySet, single allClr, single anyClr,
    allSetAndAnySet, allSetAndAllClr, allSetAndAnyClr, anySetAndAllClr, anySetAndAnyClr,
    allClrAndAnyClr, allSetOrAnySet, allSetOrAllClr, allSetOrAnyClr, anySetOrAllClr,
    anySetOrAnyClr, allClrOrAnyClr]

/-- The constants of `rtai_bits.h` for the tests of one mask. -/
def TestFun.index : TestFun → Word
  | .ALL_SET => 0
  | .ANY_SET => 1
  | .ALL_CLR => 2
  | .ANY_CLR => 3

/-- The combined tests. -/
inductive Combined where
  | ALL_SET_AND_ANY_SET
  | ALL_SET_AND_ALL_CLR
  | ALL_SET_AND_ANY_CLR
  | ANY_SET_AND_ALL_CLR
  | ANY_SET_AND_ANY_CLR
  | ALL_CLR_AND_ANY_CLR
  | ALL_SET_OR_ANY_SET
  | ALL_SET_OR_ALL_CLR
  | ALL_SET_OR_ANY_CLR
  | ANY_SET_OR_ALL_CLR
  | ANY_SET_OR_ANY_CLR
  | ALL_CLR_OR_ANY_CLR
deriving DecidableEq

namespace Combined

/-- The constants of `rtai_bits.h` for the combined tests. -/
def index : Combined → Word
  | ALL_SET_AND_ANY_SET => 4
  | ALL_SET_AND_ALL_CLR => 5
  | ALL_SET_AND_ANY_CLR => 6
  | ANY_SET_AND_ALL_CLR => 7
  | ANY_SET_AND_ANY_CLR => 8
  | ALL_CLR_AND_ANY_CLR => 9
  | ALL_SET_OR_ANY_SET => 10
  | ALL_SET_OR_ALL_CLR => 11
  | ALL_SET_OR_ANY_CLR => 12
  | ANY_SET_OR_ALL_CLR => 13
  | ANY_SET_OR_ANY_CLR => 14
  | ALL_CLR_OR_ANY_CLR => 15

/-- The element of `test_fun` at the index. -/
def test : Combined → Word → Param → Bool
  | ALL_SET_AND_ANY_SET => allSetAndAnySet
  | ALL_SET_AND_ALL_CLR => allSetAndAllClr
  | ALL_SET_AND_ANY_CLR => allSetAndAnyClr
  | ANY_SET_AND_ALL_CLR => anySetAndAllClr
  | ANY_SET_AND_ANY_CLR => anySetAndAnyClr
  | ALL_CLR_AND_ANY_CLR => allClrAndAnyClr
  | ALL_SET_OR_ANY_SET => allSetOrAnySet
  | ALL_SET_OR_ALL_CLR => allSetOrAllClr
  | ALL_SET_OR_ANY_CLR => allSetOrAnyClr
  | ANY_SET_OR_ALL_CLR => anySetOrAllClr
  | ANY_SET_OR_ANY_CLR => anySetOrAnyClr
  | ALL_CLR_OR_ANY_CLR => allClrOrAnyClr

/-- What the name of the test says of the two masks. -/
def holds : Combined → Word → Word → Word → Bool
  | ALL_SET_AND_ANY_SET, bits, m₀, m₁ => allSet bits m₀ && anySet bits m₁
  | ALL_SET_AND_ALL_CLR, bits, m₀, m₁ => allSet bits m₀ && allClr bits m₁
  | ALL_SET_AND_ANY_CLR, bits, m₀, m₁ => allSet bits m₀ && anyClr bits m₁
  | ANY_SET_AND_ALL_CLR, bits, m₀, m₁ => anySet bits m₀ && allClr bits m₁
  | ANY_SET_AND_ANY_CLR, bits, m₀, m₁ => anySet bits m₀ && anyClr bits m₁
  | ALL_CLR_AND_ANY_CLR, bits, m₀, m₁ => allClr bits m₀ && anyClr bits m₁
  | ALL_SET_OR_ANY_SET, bits, m₀, m₁ => allSet bits m₀ || anySet bits m₁
  | ALL_SET_OR_ALL_CLR, bits, m₀, m₁ => allSet bits m₀ || allClr bits m₁
  | ALL_SET_OR_ANY_CLR, bits, m₀, m₁ => allSet bits m₀ || anyClr bits m₁
  | ANY_SET_OR_ALL_CLR, bits, m₀, m₁ => anySet bits m₀ || allClr bits m₁
  | ANY_SET_OR_ANY_CLR, bits, m₀, m₁ => anySet bits m₀ || anyClr bits m₁
  | ALL_CLR_OR_ANY_CLR, bits, m₀, m₁ => allClr bits m₀ || anyClr bits m₁

theorem testFuns_index (f : Combined) : testFuns[f.index.toNat]? = some f.test := by
  cases f <;> rfl

/-- On the words it gets, every test is the one it is named for. -/
theorem test_eq (f : Combined) (bits : Word) (x : Param) :
    f.test bits x = f.holds bits x.masks x.behind := by
  cases f with
  | ALL_SET_AND_ANY_SET | ALL_CLR_AND_ANY_CLR => exact Bool.and_comm _ _
  | ALL_SET_OR_ANY_SET | ALL_CLR_OR_ANY_CLR => exact Bool.or_comm _ _
  | _ => rfl

end Combined

theorem TestFun.testFuns_index (f : TestFun) :
    testFuns[f.index.toNat]? = some (single (testFun f)) := by
  cases f <;> rfl

/-! ## The operations -/

def setClrBits (bits : Word) (masks : Param) : Word := (bits ||| MASK0 masks) &&& ~~~MASK1 masks

/-- An operation of one mask. -/
def singleOp (exec : Word → Word → Word) (bits : Word) (mask : Param) : Word :=
  exec bits mask.masks

/-- The array `exec_fun`. -/
def execFuns : List (Word → Param → Word) :=
  [singleOp setBits, singleOp clrBits, setClrBits, singleOp nopFun]

/-- The constants of `rtai_bits.h` for the operations of one mask. -/
def ExecFun.index : ExecFun → Nat
  | .SET_BITS => 0
  | .CLR_BITS => 1
  | .NOP_BITS => 3

def SET_CLR_BITS : Nat := 2

theorem ExecFun.execFuns_index (f : ExecFun) :
    execFuns[f.index]? = some (singleOp (execFun f)) := by
  cases f <;> rfl

/-! ## The words of `retval` -/

/-- `long long`, as it lies in memory. -/
abbrev Retval := BitVec 64

def TEST_FUN (retval : Retval) : Word := retval.extractLsb' 0 32

def TEST_MASK (retval : Retval) : Word := retval.extractLsb' 32 32

/-- `TEST_FUN(task) = testfun; TEST_MASK(task) = testmasks`. -/
def leaveTest (testfun testmasks : Word) (retval : Retval) : Retval :=
  let retval : Retval := TEST_MASK retval ++ testfun
  testmasks ++ TEST_FUN retval

@[simp] theorem TEST_FUN_leaveTest (testfun testmasks : Word) (retval : Retval) :
    TEST_FUN (leaveTest testfun testmasks retval) = testfun := by
  have low : TEST_FUN (TEST_MASK retval ++ testfun) = testfun := BitVec.extractLsb'_append_eq_right
  exact BitVec.extractLsb'_append_eq_right.trans low

@[simp] theorem TEST_MASK_leaveTest (testfun testmasks : Word) (retval : Retval) :
    TEST_MASK (leaveTest testfun testmasks retval) = testmasks :=
  BitVec.extractLsb'_append_eq_left

end Rtai.Bits
