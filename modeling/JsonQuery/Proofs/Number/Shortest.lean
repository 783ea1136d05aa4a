import JsonQuery.Number.Shortest
import JsonQuery.Proofs.Number.Rounding

/-!
The shortest decimal of a double reads back as the double. Where no grid has a neighbour that does,
the exact value would be written, and it reads back as well.
-/

namespace JsonQuery

/-! ## Powers of ten -/

namespace Digits

theorem length_ofNat_le_iff {number digits : Nat} (some : 0 < digits) :
    (ofNat number).length ≤ digits ↔ number < 10 ^ digits :=
  Nat.length_toDigits_le_iff (by decide) some

theorem length_ofNat_ge {units power least : Nat} (positive : 0 < units) (some : 0 < least)
    (large : 10 ^ least ≤ 5 ^ power) : least < (ofNat (units * 5 ^ power)).length := by
  rw [← Nat.not_le, length_ofNat_le_iff some, Nat.not_lt]
  exact large.trans (Nat.le_mul_of_pos_left _ positive)

theorem length_ofNat_le {units power bits digits : Nat} (some : 0 < digits)
    (below : units < 2 ^ (bits + power)) (small : 2 ^ bits ≤ 10 ^ digits) :
    (ofNat (units * 5 ^ power)).length ≤ digits + power := by
  have positive : 0 < 5 ^ power := Nat.pow_pos (by decide)
  rw [length_ofNat_le_iff (Nat.add_pos_left some power)]
  calc units * 5 ^ power
    _ < 2 ^ (bits + power) * 5 ^ power := Nat.mul_lt_mul_of_pos_right below positive
    _ = 2 ^ bits * 10 ^ power := by
      rw [Nat.pow_add, Nat.mul_assoc, ← Nat.mul_pow]
    _ ≤ 10 ^ digits * 10 ^ power := Nat.mul_le_mul_right _ small
    _ = 10 ^ (digits + power) := (Nat.pow_add 10 digits power).symm

end Digits

namespace FiniteDouble

/-! ## The exact value -/

theorem exactDecimal_eq (value : FiniteDouble) :
    value.exactDecimal = ⟨value.negative, value.units * Nat.pow 5 1074, -1074⟩ := rfl

/-- A double has few enough digits for the powers of ten to be worked out. -/
theorem size_bounds {units power : Nat} {negative : Bool} (positive : 0 < units)
    (below : units < overflowUnits) (isPower : power = 1074) :
    ¬Decimal.size ⟨negative, units * 5 ^ power, -1074⟩ < -330 ∧
      ¬310 < Decimal.size ⟨negative, units * 5 ^ power, -1074⟩ := by
  have many : 743 < (Digits.ofNat (units * 5 ^ power)).length := by
    refine Digits.length_ofNat_ge positive (by decide) ?_
    rw [isPower]
    decide +kernel
  have few : (Digits.ofNat (units * 5 ^ power)).length ≤ 310 + power := by
    have exponents : 2098 = 1024 + power := by rw [isPower]
    rw [overflowUnits, Nat.one_shiftLeft, exponents] at below
    exact Digits.length_ofNat_le (by decide) below (by decide +kernel)
  dsimp only [Decimal.size]
  omega

theorem readsBack_exactDecimal (value : FiniteDouble) : value.ReadsBack value.exactDecimal := by
  have same := value.exactDecimal_eq
  have onePower : unitsPerOne = 1 <<< 1074 := rfl
  -- From here on the power is a name, for it is too large to be worked out.
  generalize isPower : 1074 = power at same onePower
  rw [Nat.one_shiftLeft] at onePower
  rw [Nat.pow_eq] at same
  rw [ReadsBack, same]
  rcases Nat.eq_zero_or_pos value.units with isZero | positive
  · have noUnits : value.units * 5 ^ power = 0 := by rw [isZero, Nat.zero_mul]
    rw [Decimal.toDouble_of_zero noUnits]
    rcases value with ⟨negative, units, representable⟩
    cases isZero
    rfl
  · have someUnits : value.units * 5 ^ power ≠ 0 :=
      Nat.mul_ne_zero positive.ne' (Nat.pow_pos (by decide)).ne'
    rcases size_bounds positive value.representable.1 isPower.symm with
      ⟨notVanished, notOverflowed⟩
    have isBelow : (-1074 : Int) < 0 := by decide
    have size : (-1074 : Int).natAbs = power := isPower
    have scaled : value.units * 5 ^ power * 2 ^ power = value.units * 10 ^ power := by
      rw [Nat.mul_assoc, ← Nat.mul_pow]
    rw [Decimal.toDouble_eq someUnits, if_neg notVanished, if_neg notOverflowed, Decimal.nearest,
      if_pos isBelow, size, Double.ofRatio, onePower, scaled,
      nearestUnits_exact value.representable (Nat.pow_pos (by decide)), Double.ofUnits]
    exact dif_pos value.representable

/-! ## Fewer digits -/

theorem roundedQuotient_eq (numerator denominator : Nat) :
    roundedQuotient numerator denominator = numerator / denominator ∨
      roundedQuotient numerator denominator = numerator / denominator + 1 := by
  unfold roundedQuotient
  dsimp only
  split
  next => exact .inl rfl
  next =>
    split
    next => exact .inr rfl
    next =>
      split
      next => exact .inl rfl
      next => exact .inr rfl

theorem readsBack_withoutDigits (value : FiniteDouble) {dropped : Nat} {decimal : Decimal}
    (found : value.withoutDigits? dropped = some decimal) : value.ReadsBack decimal := by
  unfold withoutDigits? at found
  dsimp only at found
  split at found
  next belowReadsBack =>
    cases found
    split
    next aboveReadsBack =>
      rcases roundedQuotient_eq value.exactDecimal.coefficient (Nat.pow 10 dropped) with same | same
      · rw [same]
        exact belowReadsBack
      · rw [same]
        exact aboveReadsBack
    next => exact belowReadsBack
  next =>
    split at found
    next aboveReadsBack =>
      cases found
      exact aboveReadsBack
    next => cases found

/-- What is written for a double reads back as the double. -/
theorem readsBack_shortest (value : FiniteDouble) : value.ReadsBack value.shortest := by
  unfold shortest
  dsimp only
  cases found : (List.range 17).findSome? fun digits => value.withoutDigits?
      ((Digits.ofNat value.exactDecimal.coefficient).length - (digits + 1)) with
  | none => exact value.readsBack_exactDecimal
  | some decimal =>
      rcases List.exists_of_findSome?_eq_some found with ⟨digits, _, isFound⟩
      exact value.readsBack_withoutDigits isFound

end FiniteDouble

end JsonQuery
