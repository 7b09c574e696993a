import Mathlib.Data.List.Basic

/-!
# Integers as bytes

The bytes of an integer in memory, the low one first, and the integer that the bytes at the
head of a list are.
-/

namespace Rtai.Lib

/-- The bytes of an `int`. -/
def intBytes (x : Int32) : List UInt8 :=
  [0, 8, 16, 24].map fun start => UInt8.ofBitVec (x.toBitVec.extractLsb' start 8)

/-- The `int` at the head of the bytes. -/
def intOf (bytes : List UInt8) : Int32 :=
  Int32.ofBitVec ((bytes.getD 3 0).toBitVec ++ (bytes.getD 2 0).toBitVec ++
    (bytes.getD 1 0).toBitVec ++ (bytes.getD 0 0).toBitVec)

/-- The bytes of an `unsigned long long`. -/
def longBytes (x : UInt64) : List UInt8 :=
  [0, 8, 16, 24, 32, 40, 48, 56].map fun start => UInt8.ofBitVec (x.toBitVec.extractLsb' start 8)

/-- The `unsigned long long` at the head of the bytes. -/
def longOf (bytes : List UInt8) : UInt64 :=
  UInt64.ofBitVec ((intOf (bytes.drop 4)).toBitVec ++ (intOf bytes).toBitVec)

variable {rest : List UInt8}

@[simp] theorem length_intBytes (x : Int32) : (intBytes x).length = 4 := rfl

@[simp] theorem length_longBytes (x : UInt64) : (longBytes x).length = 8 := rfl

theorem intOf_intBytes (x : Int32) : intOf (intBytes x ++ rest) = x := by
  have bits : x.toBitVec.extractLsb' 24 8 ++ x.toBitVec.extractLsb' 16 8 ++
      x.toBitVec.extractLsb' 8 8 ++ x.toBitVec.extractLsb' 0 8 = x.toBitVec := by
    simp (disch := decide) only [BitVec.extractLsb'_append_extractLsb'_eq_extractLsb']
    exact BitVec.extractLsb'_eq_self
  exact congrArg Int32.ofBitVec bits

theorem longOf_longBytes (x : UInt64) : longOf (longBytes x ++ rest) = x := by
  have bits : x.toBitVec.extractLsb' 56 8 ++ x.toBitVec.extractLsb' 48 8 ++
      x.toBitVec.extractLsb' 40 8 ++ x.toBitVec.extractLsb' 32 8 ++
      (x.toBitVec.extractLsb' 24 8 ++ x.toBitVec.extractLsb' 16 8 ++
        x.toBitVec.extractLsb' 8 8 ++ x.toBitVec.extractLsb' 0 8) = x.toBitVec := by
    simp (disch := decide) only [BitVec.extractLsb'_append_extractLsb'_eq_extractLsb']
    exact BitVec.extractLsb'_eq_self
  exact congrArg UInt64.ofBitVec bits

end Rtai.Lib
