import JsonQuery.Selection.Range
import Mathlib

/-!
Positions in signed words of 64 bits, in which sums wrap around. Counting a position from the start
of fewer than 2 ^ 63 places stays within a word, so it comes to what the integers come to.
-/

namespace JsonQuery

namespace Word

def fromStart (length : Nat) (position : Int64) : Int64 :=
  if position < 0 then Int64.ofNat length + position else position

/-- The index that a position comes to, in words. It may lie beyond the last place. -/
def index? (length : Nat) (position : Int64) : Option Nat :=
  if fromStart length position < 0 then none else some (fromStart length position).toInt.toNat

variable {length : Nat} (short : length < 0x8000000000000000) (position : Int64)

include short

theorem not_overflow (fromTheEnd : position < 0) :
    (Int64.ofNat length).toBitVec.saddOverflow position.toBitVec = false := by
  have lengthExact : (Int64.ofNat length).toBitVec.toInt = length := Int64.toInt_ofNat_of_lt short
  have negative : position.toBitVec.toInt < 0 := Int64.lt_iff_toInt_lt.mp fromTheEnd
  have least : -2 ^ 63 ≤ position.toBitVec.toInt := position.le_toInt
  simp only [BitVec.saddOverflow, lengthExact, Bool.or_eq_false_iff, decide_eq_false_iff_not]
  omega

theorem toInt_fromStart :
    (fromStart length position).toInt = JsonQuery.fromStart length position.toInt := by
  have lengthExact : (Int64.ofNat length).toInt = length := Int64.toInt_ofNat_of_lt short
  have least := position.le_toInt
  unfold fromStart JsonQuery.fromStart
  simp only [Int64.lt_iff_toInt_lt, Int64.toInt_zero]
  split
  next fromTheEnd =>
    rw [Int64.toInt_add, lengthExact]
    apply Int.bmod_eq_of_le <;> norm_num <;> omega
  next => rfl

theorem index?_eq_some_iff {index : Nat} :
    index? length position = some index ↔ JsonQuery.fromStart length position.toInt = index := by
  unfold index?
  simp only [Int64.lt_iff_toInt_lt, Int64.toInt_zero, toInt_fromStart short]
  simp only [Option.ite_none_left_eq_some, Option.some.injEq]
  omega

theorem resolveIndex?_eq_filter :
    resolveIndex? position.toInt length = (index? length position).filter (· < length) := by
  ext index
  simp only [Option.filter_eq_some_iff, index?_eq_some_iff short, decide_eq_true_eq,
    resolveIndex?, Option.ite_none_right_eq_some, Option.some.injEq]
  omega

end Word

end JsonQuery
