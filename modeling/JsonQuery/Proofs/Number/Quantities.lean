import JsonQuery.Proofs.Number.Shortest
import JsonQuery.Proofs.Path.Numerals
import Mathlib

/-!
Decimals and doubles as rational numbers. A decimal with the quantity of some double is read as a
double of this quantity, whatever its exponent. So a decimal is read exactly if and only if some
double has its quantity.
-/

namespace JsonQuery

theorem unitsPerOne_pos : 0 < unitsPerOne := by
  rw [unitsPerOne, Nat.one_shiftLeft]
  apply Nat.pow_pos
  decide

/-- A one is a power of two in units. The power is too large to be worked out in a proof. -/
theorem unitsPerOne_eq_two_pow : ∃ power, unitsPerOne = 2 ^ power := by
  have onePower : unitsPerOne = 1 <<< 1074 := rfl
  generalize 1074 = power at onePower
  rw [Nat.one_shiftLeft] at onePower
  exact ⟨power, onePower⟩

/-! ## Quantities -/

def signed (negative : Bool) (magnitude : ℚ) : ℚ :=
  if negative then -magnitude else magnitude

def FiniteDouble.quantity (double : FiniteDouble) : ℚ :=
  signed double.negative (double.units / unitsPerOne)

def Decimal.quantity (decimal : Decimal) : ℚ :=
  signed decimal.negative (decimal.coefficient * 10 ^ decimal.exponent)

def IsDouble (quantity : ℚ) : Prop :=
  ∃ double : FiniteDouble, double.quantity = quantity

theorem abs_signed (negative : Bool) {magnitude : ℚ} (positive : 0 ≤ magnitude) :
    |signed negative magnitude| = magnitude := by
  cases negative with
  | true => rw [signed, if_pos rfl, abs_neg, abs_of_nonneg positive]
  | false => exact abs_of_nonneg positive

namespace FiniteDouble

theorem abs_quantity (double : FiniteDouble) :
    |double.quantity| = double.units / unitsPerOne :=
  abs_signed _ (by positivity)

theorem whole_quotient {units number : Nat} :
    (units : ℚ) / unitsPerOne = number ↔ units = number * unitsPerOne := by
  have notZero : (unitsPerOne : ℚ) ≠ 0 := by exact_mod_cast unitsPerOne_pos.ne'
  rw [div_eq_iff notZero]
  exact_mod_cast Iff.rfl

theorem toInt?_eq_some_iff {double : FiniteDouble} {whole : Int} :
    double.toInt? = some whole ↔ double.quantity = whole := by
  rw [toInt?, quantity]
  constructor
  · intro found
    split at found
    next divides =>
      have quotient := whole_quotient.mpr (Nat.div_mul_cancel (Nat.dvd_of_mod_eq_zero divides)).symm
      rw [quotient, ← Option.some.inj found, signed]
      split <;> push_cast <;> rfl
    next => cases found
  · intro same
    have magnitude := congrArg abs same
    rw [abs_signed _ (by positivity), ← Int.cast_abs, Int.abs_eq_natAbs, Int.cast_natCast]
      at magnitude
    have isWhole := whole_quotient.mp magnitude
    rw [magnitude, signed] at same
    rw [isWhole, Nat.mul_mod_left, if_pos rfl, Nat.mul_div_cancel _ unitsPerOne_pos]
    dsimp only
    split at same
    next negative =>
      rw [if_pos negative]
      refine congrArg some (Int.cast_injective (α := ℚ) ?_)
      rw [Int.cast_neg, Int.cast_natCast, same]
    next positive =>
      rw [if_neg positive]
      refine congrArg some (Int.cast_injective (α := ℚ) ?_)
      rw [Int.cast_natCast, same]

end FiniteDouble

theorem isDouble_intCast_iff {whole : Int} :
    IsDouble whole ↔ Representable (whole.natAbs * unitsPerOne) := by
  constructor
  · rintro ⟨double, same⟩
    have magnitude := congrArg abs same
    rw [double.abs_quantity, ← Int.cast_abs, Int.abs_eq_natAbs, Int.cast_natCast] at magnitude
    rw [← FiniteDouble.whole_quotient.mp magnitude]
    exact double.representable
  · intro representable
    refine ⟨⟨whole < 0, _, representable⟩, FiniteDouble.toInt?_eq_some_iff.mp ?_⟩
    simp only [FiniteDouble.toInt?, Nat.mul_mod_left, if_true,
      Nat.mul_div_cancel _ unitsPerOne_pos, decide_eq_true_eq]
    congr 1
    split <;> omega

/-! ## Reading exactly -/

namespace Digits

theorem lt_pow_length (number : Nat) : number < 10 ^ (ofNat number).length :=
  (length_ofNat_le_iff (List.length_pos_iff.mpr Nat.toDigits_ne_nil)).mp (Nat.le_refl _)

theorem pow_length_le {number : Nat} (positive : 0 < number) :
    10 ^ ((ofNat number).length - 1) ≤ number := by
  rcases Nat.eq_zero_or_pos ((ofNat number).length - 1) with one | more
  · rw [one]
    exact positive
  · rw [← Nat.not_lt, ← length_ofNat_le_iff more]
    omega

end Digits

namespace Decimal

theorem abs_quantity (decimal : Decimal) :
    |decimal.quantity| = decimal.coefficient * 10 ^ decimal.exponent :=
  abs_signed _ (by positivity)

theorem scaled_of_quantity {coefficient units : Nat} {exponent : Int}
    (same : (coefficient : ℚ) * 10 ^ exponent = units / unitsPerOne) :
    coefficient * 10 ^ exponent.toNat * unitsPerOne = units * 10 ^ (-exponent).toNat := by
  have positive : (unitsPerOne : ℚ) ≠ 0 := by exact_mod_cast unitsPerOne_pos.ne'
  have power : (10 : ℚ) ^ exponent * 10 ^ (-exponent).toNat = 10 ^ exponent.toNat := by
    rw [← zpow_natCast, ← zpow_natCast, ← zpow_add₀ (by norm_num)]
    congr 1
    omega
  have scaled : (coefficient : ℚ) * 10 ^ exponent.toNat * unitsPerOne =
      units * 10 ^ (-exponent).toNat := by
    rw [← power, ← mul_assoc, same, div_mul_eq_mul_div, div_mul_cancel₀ _ positive]
  exact_mod_cast scaled

section Size

variable {decimal : Decimal} {units : Nat}

/-- A decimal of the size of a double has few enough zeros for the powers of ten to be worked
out. -/
theorem not_vanished_of_scaled
    (scaled : decimal.coefficient * 10 ^ decimal.exponent.toNat * unitsPerOne =
      units * 10 ^ (-decimal.exponent).toNat)
    (some : 0 < units) : ¬decimal.size < -330 := by
  intro vanished
  have upper := Digits.lt_pow_length decimal.coefficient
  rw [size] at vanished
  generalize (Digits.ofNat decimal.coefficient).length = length at upper vanished
  have noPower : decimal.exponent.toNat = 0 := by omega
  rw [noPower, Nat.pow_zero, Nat.mul_one] at scaled
  have small : unitsPerOne ≤ 10 ^ 331 := by decide +kernel
  have tooSmall : 10 ^ (-decimal.exponent).toNat < 10 ^ (length + 331) :=
    calc 10 ^ (-decimal.exponent).toNat
      _ ≤ units * 10 ^ (-decimal.exponent).toNat := Nat.le_mul_of_pos_left _ some
      _ = decimal.coefficient * unitsPerOne := scaled.symm
      _ < 10 ^ length * unitsPerOne := Nat.mul_lt_mul_of_pos_right upper unitsPerOne_pos
      _ ≤ 10 ^ length * 10 ^ 331 := Nat.mul_le_mul_left _ small
      _ = 10 ^ (length + 331) := by rw [Nat.pow_add]
  have fewer := (Nat.pow_lt_pow_iff_right (by decide)).mp tooSmall
  omega

theorem not_overflowed_of_scaled
    (scaled : decimal.coefficient * 10 ^ decimal.exponent.toNat * unitsPerOne =
      units * 10 ^ (-decimal.exponent).toNat)
    (notZero : 0 < decimal.coefficient) (bounded : units < overflowUnits) :
    ¬310 < decimal.size := by
  intro overflowed
  have lower := Digits.pow_length_le notZero
  rw [size] at overflowed
  generalize (Digits.ofNat decimal.coefficient).length = length at lower overflowed
  have positive (power : Nat) : 0 < 10 ^ power := Nat.pow_pos (by decide)
  have large : overflowUnits ≤ 10 ^ 310 * unitsPerOne := by decide +kernel
  have tooLarge : 10 ^ (length - 1 + decimal.exponent.toNat) * unitsPerOne <
      10 ^ (310 + (-decimal.exponent).toNat) * unitsPerOne :=
    calc 10 ^ (length - 1 + decimal.exponent.toNat) * unitsPerOne
      _ = 10 ^ (length - 1) * 10 ^ decimal.exponent.toNat * unitsPerOne := by rw [Nat.pow_add]
      _ ≤ decimal.coefficient * 10 ^ decimal.exponent.toNat * unitsPerOne :=
        Nat.mul_le_mul_right _ (Nat.mul_le_mul_right _ lower)
      _ = units * 10 ^ (-decimal.exponent).toNat := scaled
      _ < overflowUnits * 10 ^ (-decimal.exponent).toNat :=
        Nat.mul_lt_mul_of_pos_right bounded (positive _)
      _ ≤ 10 ^ 310 * unitsPerOne * 10 ^ (-decimal.exponent).toNat := Nat.mul_le_mul_right _ large
      _ = 10 ^ (310 + (-decimal.exponent).toNat) * unitsPerOne := by
        rw [Nat.mul_right_comm, ← Nat.pow_add]
  have fewer := (Nat.pow_lt_pow_iff_right (by decide)).mp
    ((Nat.mul_lt_mul_right unitsPerOne_pos).mp tooLarge)
  omega

end Size

theorem toDouble_of_scaled {decimal : Decimal} {units : Nat}
    (scaled : decimal.coefficient * 10 ^ decimal.exponent.toNat * unitsPerOne =
      units * 10 ^ (-decimal.exponent).toNat)
    (notZero : 0 < decimal.coefficient) (representable : Representable units) :
    decimal.toDouble = .finite ⟨decimal.negative, units, representable⟩ := by
  have positive (power : Nat) : 0 < 10 ^ power := Nat.pow_pos (by decide)
  have some : 0 < units := by
    apply Nat.pos_of_mul_pos_right
    rw [← scaled]
    exact Nat.mul_pos (Nat.mul_pos notZero (positive _)) unitsPerOne_pos
  have notVanished := not_vanished_of_scaled scaled some
  have notOverflowed := not_overflowed_of_scaled scaled notZero representable.1
  rw [toDouble_eq notZero.ne', if_neg notVanished, if_neg notOverflowed, nearest]
  split
  next below =>
    have noPower : decimal.exponent.toNat = 0 := by omega
    have power : (-decimal.exponent).toNat = decimal.exponent.natAbs := by omega
    rw [noPower, power, Nat.pow_zero, Nat.mul_one] at scaled
    rw [Double.ofRatio, scaled, nearestUnits_exact representable (positive _), Double.ofUnits]
    exact dif_pos representable
  next above =>
    have noPower : (-decimal.exponent).toNat = 0 := by omega
    have power : decimal.exponent.toNat = decimal.exponent.natAbs := by omega
    rw [noPower, power, Nat.pow_zero] at scaled
    rw [Double.ofRatio, scaled, nearestUnits_exact representable Nat.one_pos, Double.ofUnits]
    exact dif_pos representable

theorem toDouble_of_isDouble {decimal : Decimal} (isDouble : IsDouble decimal.quantity) :
    ∃ double : FiniteDouble, decimal.toDouble = .finite double ∧
      double.quantity = decimal.quantity := by
  rcases isDouble with ⟨double, same⟩
  have magnitudes := congrArg abs same
  rw [abs_quantity, double.abs_quantity] at magnitudes
  rcases Nat.eq_zero_or_pos decimal.coefficient with isZero | notZero
  · refine ⟨_, toDouble_of_zero isZero, ?_⟩
    simp [FiniteDouble.quantity, FiniteDouble.zero, quantity, isZero]
  · have scaled := scaled_of_quantity magnitudes.symm
    refine ⟨_, toDouble_of_scaled scaled notZero double.representable, ?_⟩
    rw [FiniteDouble.quantity, quantity, magnitudes]

/-! ## Texts -/

theorem read?_letter {text others : List Char} {first : Char}
    (split : (splitSign text).2 = first :: others) (notDigit : first.isDigit = false)
    (notPoint : first ≠ '.') (notMark : ¬(first = 'e' ∨ first = 'E')) : read? text = none := by
  have noDigits : (first :: others).takeWhile Char.isDigit = [] := by simp [notDigit]
  have allLeft : (first :: others).dropWhile Char.isDigit = first :: others := by simp [notDigit]
  simp only [read?, split, noDigits, allLeft]
  split
  next text same => exact absurd (List.cons.inj same).1 notPoint
  next => rw [readExponent?, if_neg notMark]; rfl

theorem read?_name {text name : List Char} (isName : (splitSign text).2.map Char.toLower = name)
    (letter : name.head? = some 'n' ∨ name.head? = some 'i') : read? text = none := by
  cases split : (splitSign text).2 with
  | nil =>
      rw [split] at isName
      rw [← isName] at letter
      rcases letter with letter | letter <;> cases letter
  | cons first others =>
      rw [split] at isName
      rw [← isName, List.map_cons, List.head?_cons, Option.some.injEq, Option.some.injEq] at letter
      refine read?_letter split ?_ ?_ ?_
      · rw [Bool.eq_false_iff]
        intro isDigit
        rw [Lexer.toLower_of_isDigit isDigit] at letter
        rcases letter with rfl | rfl <;> cases isDigit
      · rintro rfl
        revert letter
        decide
      · rintro (rfl | rfl) <;>
        · revert letter
          decide

theorem quantity_ofInt (number : Int) :
    quantity ⟨number < 0, number.natAbs, 0⟩ = number := by
  have magnitude : (number.natAbs : ℚ) * 10 ^ (0 : Int) = |(number : ℚ)| := by
    rw [zpow_zero, mul_one, Nat.cast_natAbs, Int.cast_abs]
  rw [quantity, magnitude, signed]
  split
  next negative =>
    have below : (number : ℚ) < 0 := by exact_mod_cast of_decide_eq_true negative
    rw [abs_of_neg below, neg_neg]
  next notNegative =>
    have above : (0 : ℚ) ≤ number := by
      exact_mod_cast Int.not_lt.mp fun negative => notNegative (decide_eq_true negative)
    rw [abs_of_nonneg above]

theorem read?_ofInt (number : Int) :
    read? (Digits.ofInt number) = some ⟨number < 0, number.natAbs, 0⟩ := by
  have digits := Lexer.digitText_ofNat number.natAbs
  have spelled (negative : Bool) : Lexer.Numeral 'e'
      ((if negative then ['-'] else []) ++ (Digits.ofNat number.natAbs ++ ([] ++ [])))
      (ofParts negative (Digits.ofNat number.natAbs) [] 0) :=
    .intro rfl digits .none .none nofun
  have parts (negative : Bool) : ofParts negative (Digits.ofNat number.natAbs) [] 0 =
      ⟨negative, number.natAbs, 0⟩ := by
    rw [ofParts, List.append_nil, Lexer.toNat_ofNat]
    rfl
  simp only [parts, List.append_nil] at spelled
  rw [Digits.ofInt]
  split
  next negative =>
    rw [decide_eq_true negative]
    exact (spelled true).read?
  next notNegative =>
    rw [decide_eq_false notNegative]
    exact (spelled false).read?

end Decimal

theorem Double.read?_eq_finite_iff {text : List Char} {double : FiniteDouble} :
    Double.read? text = some (.finite double) ↔
      ∃ decimal, Decimal.read? text = some decimal ∧ decimal.toDouble = .finite double := by
  rw [Double.read?]
  dsimp only
  split
  next isName =>
    rw [Decimal.read?_name isName (.inl rfl)]
    simp
  next =>
    split
    next isName =>
      have noDecimal : Decimal.read? text = none := by
        rcases isName with isName | isName <;> exact Decimal.read?_name isName (.inr rfl)
      rw [noDecimal]
      simp
    next => exact Option.map_eq_some_iff

/-! ## Large integers -/

theorem two_pow_le_nearestUnits {power units : Nat} (large : 2 ^ power ≤ units) :
    2 ^ power ≤ nearestUnits units 1 := by
  have notZero : units ≠ 0 := (Nat.lt_of_lt_of_le (Nat.two_pow_pos power) large).ne'
  have rounded (step : Nat) : units / step ≤ roundedQuotient units step := by
    rcases FiniteDouble.roundedQuotient_eq units step with same | same <;> omega
  rw [nearestUnits, Nat.div_one, Nat.one_mul, spacing, Nat.one_shiftLeft]
  generalize isStep : units.log2 - 52 = step
  refine Nat.le_trans ?_ (Nat.mul_le_mul_right _ (rounded (2 ^ step)))
  have positive := Nat.two_pow_pos step
  rcases le_or_gt step power with fine | coarse
  · have split : 2 ^ power = 2 ^ (power - step) * 2 ^ step := by
      rw [← Nat.pow_add, Nat.sub_add_cancel fine]
    rw [split] at large ⊢
    exact Nat.mul_le_mul_right _ ((Nat.le_div_iff_mul_le positive).mpr large)
  · have reached : 2 ^ step ≤ units :=
      (Nat.pow_le_pow_right (by decide) (by omega)).trans (Nat.log2_self_le notZero)
    have once : 1 ≤ units / 2 ^ step := (Nat.one_le_div_iff positive).mpr reached
    calc 2 ^ power
      _ ≤ 2 ^ step := Nat.pow_le_pow_right (by decide) coarse.le
      _ ≤ units / 2 ^ step * 2 ^ step := Nat.le_mul_of_pos_left _ once

theorem Double.le_quantity_of_ofInt {number : Int} {double : FiniteDouble}
    (large : 0x8000000000000000 ≤ number) (nearest : Double.ofInt number = .finite double) :
    0x8000000000000000 ≤ double.quantity := by
  have positive : (0 : ℚ) < unitsPerOne := by exact_mod_cast unitsPerOne_pos
  obtain ⟨power, onePower⟩ := unitsPerOne_eq_two_pow
  have bound : 0x8000000000000000 * unitsPerOne = 2 ^ (63 + power) := by
    rw [onePower, Nat.pow_add]
  have above : 2 ^ (63 + power) ≤ number.natAbs * unitsPerOne := by
    rw [← bound]
    exact Nat.mul_le_mul_right _ (by omega)
  have notNegative : decide (number < 0) = false := decide_eq_false (by omega)
  rw [ofInt, ofRatio, notNegative, ofUnits] at nearest
  split at nearest
  next representable =>
    cases nearest
    have units := two_pow_le_nearestUnits above
    rw [← bound] at units
    rw [FiniteDouble.quantity, signed, if_neg Bool.false_ne_true, le_div_iff₀ positive]
    exact_mod_cast units
  next => cases nearest

end JsonQuery
