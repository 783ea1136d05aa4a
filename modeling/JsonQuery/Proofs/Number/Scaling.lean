import JsonQuery.Json.Read
import JsonQuery.Proofs.Number.Quantities

/-!
Where numbers are read exactly. A number whose digits form a double, and whose power of ten is one
of those that are doubles, is read as the double nearest to it: only the last step rounds.
-/

namespace JsonQuery

/-! ## Magnitudes -/

theorem wholeUnits_exact {number : Nat} (exact : Representable (number * unitsPerOne)) :
    wholeUnits number = number * unitsPerOne := by
  have same := nearestUnits_exact exact Nat.one_pos
  rwa [Nat.mul_one] at same

theorem powerUnits_exact {exponent : Nat} (small : exponent ≤ 22) :
    powerUnits exponent = 10 ^ exponent * unitsPerOne := by
  have representable : ∀ exponent ≤ 22, Representable (10 ^ exponent * unitsPerOne) := by
    decide +kernel
  exact wholeUnits_exact (representable exponent small)

theorem productUnits_exact (left right : Nat) :
    productUnits (left * unitsPerOne) (right * unitsPerOne) =
      nearestUnits (left * right * unitsPerOne) 1 := by
  have product : left * unitsPerOne * (right * unitsPerOne) =
      left * right * unitsPerOne * unitsPerOne := by ring
  have same := nearestUnits_mul (left * right * unitsPerOne) 1 unitsPerOne_pos
  rwa [Nat.one_mul, ← product] at same

theorem quotientUnits_exact (left right : Nat) :
    quotientUnits (left * unitsPerOne) (right * unitsPerOne) =
      nearestUnits (left * unitsPerOne) right :=
  nearestUnits_mul (left * unitsPerOne) right unitsPerOne_pos

/-- What is scaled exactly but for the last step is the nearest double. -/
theorem FiniteDouble.ofScaled?_exact (negative : Bool) {number : Nat} {exponent : Int}
    (exact : Representable (number * unitsPerOne)) (near : exponent.natAbs ≤ 22) :
    ofScaled? negative number exponent = (Decimal.nearest negative number exponent).finite? := by
  have power := powerUnits_exact near
  have notGreater : exponent.natAbs ≤ greatestPower := near.trans (by decide)
  unfold ofScaled? Decimal.nearest Double.ofRatio
  dsimp only
  rw [wholeUnits_exact exact, power]
  split
  next => rw [dividedUnits, if_pos notGreater, power, quotientUnits_exact]
  next =>
    have inReach : exponent ≤ greatestPower := by omega
    rw [if_pos inReach, productUnits_exact]

/-! ## Decimals -/

namespace Digits

/-- The number that digits spell behind the ones that a word has been read from. -/
def continued (word : Nat) (digits : List Char) : Nat :=
  digits.foldl (fun total digit => total * 10 + value digit) word

theorem toNat_append (digits more : List Char) :
    toNat (digits ++ more) = continued (toNat digits) more :=
  List.foldl_append

theorem le_continued (word : Nat) (digits : List Char) : word ≤ continued word digits := by
  induction digits generalizing word with
  | nil => exact Nat.le_refl word
  | cons digit digits induction =>
      have longer : word ≤ word * 10 + value digit := by omega
      exact longer.trans (induction _)

end Digits

namespace Decimal

theorem ofRatio_zero (negative : Bool) (denominator : Nat) :
    Double.ofRatio negative 0 denominator = .finite (.zero negative) := by
  have nothing : nearestUnits (0 * unitsPerOne) denominator = 0 := by
    simp [nearestUnits, roundedQuotient]
  rw [Double.ofRatio, nothing, Double.ofUnits, dif_pos representable_zero, FiniteDouble.zero]

theorem toDouble_eq_nearest {decimal : Decimal} (fits : decimal.coefficient < 0x10000000000000000)
    (near : decimal.exponent.natAbs ≤ 22) :
    decimal.toDouble = nearest decimal.negative decimal.coefficient decimal.exponent := by
  rcases Nat.eq_zero_or_pos decimal.coefficient with isZero | positive
  · rw [toDouble_of_zero isZero, nearest, isZero, Nat.zero_mul, ofRatio_zero, ofRatio_zero,
      ite_self]
  · have few : (Digits.ofNat decimal.coefficient).length ≤ 20 :=
      (Digits.length_ofNat_le_iff (by decide)).mpr (fits.trans (by decide))
    rw [toDouble_eq positive.ne', if_neg, if_neg]
    all_goals rw [size]; omega

end Decimal

/-! ## Written numbers -/

namespace Json

def NumberText.toDecimal (number : NumberText) : Decimal :=
  Decimal.ofParts number.negative number.whole (number.fraction.getD []) (number.exponent.getD 0)

/-- The digits form a double, and the power of ten is one. -/
structure NumberText.IsShort (number : NumberText) : Prop where
  fits : number.toDecimal.coefficient < 0x10000000000000000
  exact : Representable (number.toDecimal.coefficient * unitsPerOne)
  near : number.toDecimal.exponent.natAbs ≤ 22
  counted : (number.exponent.getD 0).natAbs ≤ 0x7FFFFFFF

theorem takeDigits_all {word : Nat} {digits : List Char}
    (fits : Digits.continued word digits < 0x10000000000000000) :
    takeDigits word digits = (Digits.continued word digits, 0) := by
  induction digits generalizing word with
  | nil => rfl
  | cons digit digits induction =>
      have next := (Digits.le_continued (word * 10 + Digits.value digit) digits).trans_lt fits
      rw [takeDigits, if_pos next]
      exact induction fits

theorem NumberText.toDouble?_exact {number : NumberText} (short : number.IsShort) :
    number.toDouble? = number.toDecimal.toDouble.finite? := by
  rcases short with ⟨fits, exact, near, counted⟩
  rw [Decimal.toDouble_eq_nearest fits near]
  unfold toDecimal Decimal.ofParts at fits exact near ⊢
  dsimp only at fits exact near ⊢
  rw [Digits.toNat_append] at fits exact ⊢
  have wholeFits : Digits.continued 0 number.whole < 0x10000000000000000 :=
    (Digits.le_continued _ _).trans_lt fits
  have whole : takeDigits 0 number.whole = (Digits.toNat number.whole, 0) :=
    takeDigits_all wholeFits
  have both := takeDigits_all fits
  rw [toDouble?]
  simp only [whole, both, if_neg (Nat.not_lt.mpr counted), Nat.sub_zero]
  rw [← FiniteDouble.ofScaled?_exact number.negative exact near]
  congr 1
  omega

/-- The power of ten is not a double here, and the quotient is next to the nearest double. -/
example : NumberText.toDouble? ⟨false, ['1'], none, some (-24)⟩ ≠
    (NumberText.toDecimal ⟨false, ['1'], none, some (-24)⟩).toDouble.finite? := by
  decide +kernel

end Json

end JsonQuery
