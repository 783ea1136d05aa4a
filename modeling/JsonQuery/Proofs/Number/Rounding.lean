import JsonQuery.Number.Decimal
import Mathlib.Data.Nat.Digits.Defs
import Mathlib.Tactic.Ring

/-!
Rounding to doubles. A ratio is rounded alike however it is written, so zeros at the end of a
coefficient do not matter, and a double is the nearest one to itself.
-/

namespace JsonQuery

/-! ## Ratios -/

theorem roundedQuotient_mul (numerator denominator : Nat) {factor : Nat} (positive : 0 < factor) :
    roundedQuotient (numerator * factor) (denominator * factor) =
      roundedQuotient numerator denominator := by
  have rest : 2 * (numerator * factor % (denominator * factor)) =
      2 * (numerator % denominator) * factor := by
    rw [Nat.mul_mod_mul_right, Nat.mul_assoc]
  simp only [roundedQuotient, Nat.mul_div_mul_right _ _ positive, rest,
    Nat.mul_lt_mul_right positive]

theorem roundedQuotient_exact (quotient : Nat) {denominator : Nat} (positive : 0 < denominator) :
    roundedQuotient (quotient * denominator) denominator = quotient := by
  rw [roundedQuotient, Nat.mul_div_cancel _ positive, Nat.mul_mod_left]
  exact if_pos positive

theorem nearestUnits_mul (numerator denominator : Nat) {factor : Nat} (positive : 0 < factor) :
    nearestUnits (numerator * factor) (denominator * factor) =
      nearestUnits numerator denominator := by
  have swapped (step : Nat) : denominator * factor * step = denominator * step * factor := by ring
  simp only [nearestUnits, Nat.mul_div_mul_right _ _ positive, swapped,
    roundedQuotient_mul _ _ positive]

theorem spacing_pos (units : Nat) : 0 < spacing units := by
  rw [spacing, Nat.one_shiftLeft]
  exact Nat.two_pow_pos _

/-- The magnitude of a double is the nearest one to itself. -/
theorem nearestUnits_exact {units : Nat} (representable : Representable units) {denominator : Nat}
    (positive : 0 < denominator) : nearestUnits (units * denominator) denominator = units := by
  have whole : units / spacing units * spacing units = units :=
    Nat.div_mul_cancel (Nat.dvd_of_mod_eq_zero representable.2)
  have scaled : units * denominator =
      units / spacing units * (denominator * spacing units) := by
    rw [Nat.mul_comm denominator, ← Nat.mul_assoc, whole]
  rw [nearestUnits, Nat.mul_div_cancel _ positive]
  rw [scaled, roundedQuotient_exact _ (Nat.mul_pos positive (spacing_pos units)), whole]

namespace Double

theorem ofRatio_mul (negative : Bool) (numerator denominator : Nat) {factor : Nat}
    (positive : 0 < factor) :
    ofRatio negative (numerator * factor) (denominator * factor) =
      ofRatio negative numerator denominator := by
  have swapped : numerator * factor * unitsPerOne = numerator * unitsPerOne * factor := by ring
  rw [ofRatio, ofRatio, swapped, nearestUnits_mul _ _ positive]

end Double

/-! ## Decimals -/

namespace Digits

theorem ofNat_mul_ten {number : Nat} (positive : 0 < number) :
    ofNat (number * 10) = ofNat number ++ ['0'] := by
  have large : 10 ≤ number * 10 := Nat.le_mul_of_pos_left 10 positive
  rw [ofNat, Nat.toDigits_of_base_le (by decide) large, Nat.mul_div_cancel _ (by decide),
    Nat.mul_mod_left]
  rfl

theorem ofNat_mul_pow {number : Nat} (positive : 0 < number) (zeros : Nat) :
    ofNat (number * 10 ^ zeros) = ofNat number ++ List.replicate zeros '0' := by
  induction zeros with
  | zero => rw [Nat.pow_zero, Nat.mul_one, List.replicate_zero, List.append_nil]
  | succ zeros induction =>
      have larger : 0 < number * 10 ^ zeros := Nat.mul_pos positive (Nat.pow_pos (by decide))
      rw [Nat.pow_succ, ← Nat.mul_assoc, ofNat_mul_ten larger, induction, List.append_assoc,
        ← List.replicate_succ']

end Digits

namespace Decimal

theorem toDouble_of_zero {decimal : Decimal} (isZero : decimal.coefficient = 0) :
    decimal.toDouble = .finite (.zero decimal.negative) := by
  rw [toDouble]
  exact if_pos (.inl isZero)

/-- The number of digits before the point, less than zero if there are zeros behind it. -/
def size (decimal : Decimal) : Int :=
  decimal.exponent + (Digits.ofNat decimal.coefficient).length

/-- The double nearest to `coefficient * 10 ^ exponent`, if the powers of ten are worked out. -/
def nearest (negative : Bool) (coefficient : Nat) (exponent : Int) : Double :=
  if exponent < 0 then Double.ofRatio negative coefficient (10 ^ exponent.natAbs)
  else Double.ofRatio negative (coefficient * 10 ^ exponent.natAbs) 1

theorem toDouble_eq {decimal : Decimal} (notZero : decimal.coefficient ≠ 0) :
    decimal.toDouble =
      if decimal.size < -330 then .finite (.zero decimal.negative)
      else if 310 < decimal.size then .infinite decimal.negative
      else nearest decimal.negative decimal.coefficient decimal.exponent := by
  unfold toDouble size
  simp only [notZero, false_or]
  rfl

theorem nearest_mul_pow (negative : Bool) (coefficient zeros : Nat) (exponent : Int) :
    nearest negative (coefficient * 10 ^ zeros) exponent =
      nearest negative coefficient (exponent + zeros) := by
  have positive (power : Nat) : 0 < 10 ^ power := Nat.pow_pos (by decide)
  unfold nearest
  split
  next below =>
    split
    next stillBelow =>
      have split : exponent.natAbs = (exponent + zeros).natAbs + zeros := by omega
      rw [split, Nat.pow_add]
      exact Double.ofRatio_mul _ _ _ (positive zeros)
    next above =>
      have split : zeros = (exponent + zeros).natAbs + exponent.natAbs := by omega
      have scaled : coefficient * 10 ^ zeros =
          coefficient * 10 ^ (exponent + zeros).natAbs * 10 ^ exponent.natAbs := by
        rw [Nat.mul_assoc, ← Nat.pow_add, ← split]
      have same := Double.ofRatio_mul negative (coefficient * 10 ^ (exponent + zeros).natAbs) 1
        (positive exponent.natAbs)
      rw [Nat.one_mul, ← scaled] at same
      exact same
  next notBelow =>
    have above : ¬exponent + zeros < 0 := by omega
    have split : (exponent + zeros).natAbs = zeros + exponent.natAbs := by omega
    rw [if_neg above, split, Nat.pow_add, Nat.mul_assoc]

theorem toDouble_mul_pow (negative : Bool) (coefficient zeros : Nat) (exponent : Int) :
    toDouble ⟨negative, coefficient * 10 ^ zeros, exponent⟩ =
      toDouble ⟨negative, coefficient, exponent + zeros⟩ := by
  rcases Nat.eq_zero_or_pos coefficient with rfl | positive
  · rw [toDouble_of_zero (Nat.zero_mul _), toDouble_of_zero rfl]
  · have notZero : coefficient * 10 ^ zeros ≠ 0 :=
      Nat.mul_ne_zero positive.ne' (Nat.pow_pos (by decide)).ne'
    have sameSize : size ⟨negative, coefficient * 10 ^ zeros, exponent⟩ =
        size ⟨negative, coefficient, exponent + zeros⟩ := by
      simp only [size, Digits.ofNat_mul_pow positive, List.length_append, List.length_replicate]
      omega
    rw [toDouble_eq notZero, toDouble_eq positive.ne', sameSize]
    simp only [nearest_mul_pow]

end Decimal

end JsonQuery
