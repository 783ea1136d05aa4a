import JsonQuery.Proofs.Number.Quantities
import Mathlib

/-!
Rounding and order. Rounding to the nearest double never puts two numbers into the opposite order,
and it leaves integers of 53 bits as they are. So the order of two integers can be told from their
nearest doubles, unless both have the same one.
-/

namespace JsonQuery

/-! ## Magnitudes -/

theorem roundedQuotient_mono (denominator : Nat) {numerator other : Nat}
    (ordered : numerator ≤ other) :
    roundedQuotient numerator denominator ≤ roundedQuotient other denominator := by
  have quotients : numerator / denominator ≤ other / denominator := Nat.div_le_div_right ordered
  rcases quotients.eq_or_lt with same | less
  · -- With the same whole part, the larger rest is rounded up first.
    have rests : numerator % denominator ≤ other % denominator := by
      have left := Nat.div_add_mod numerator denominator
      have right := Nat.div_add_mod other denominator
      rw [same] at left
      omega
    simp only [roundedQuotient, same]
    split_ifs <;> omega
  · have left := FiniteDouble.roundedQuotient_eq numerator denominator
    have right := FiniteDouble.roundedQuotient_eq other denominator
    omega

theorem nearestUnits_le_two_pow {power units : Nat} (below : units < 2 ^ power) :
    nearestUnits units 1 ≤ 2 ^ power := by
  rw [nearestUnits, Nat.div_one, Nat.one_mul, spacing, Nat.one_shiftLeft]
  have fine : units.log2 - 52 ≤ power := by
    rcases Nat.eq_zero_or_pos units with rfl | positive
    · simp
    · have reached := (Nat.log2_lt positive.ne').mpr below
      omega
  generalize units.log2 - 52 = step at fine
  have split : 2 ^ power = 2 ^ (power - step) * 2 ^ step := by
    rw [← Nat.pow_add, Nat.sub_add_cancel fine]
  rw [split] at below ⊢
  apply Nat.mul_le_mul_right
  calc roundedQuotient units (2 ^ step)
    _ ≤ roundedQuotient (2 ^ (power - step) * 2 ^ step) (2 ^ step) :=
      roundedQuotient_mono _ below.le
    _ = 2 ^ (power - step) := roundedQuotient_exact _ (Nat.two_pow_pos step)

theorem nearestUnits_mono {units other : Nat} (ordered : units ≤ other) :
    nearestUnits units 1 ≤ nearestUnits other 1 := by
  rcases Nat.eq_zero_or_pos other with rfl | positive
  · rw [Nat.le_zero.mp ordered]
  · rcases Nat.lt_or_ge units (2 ^ other.log2) with below | reached
    · -- A power of two stands between them, and rounding does not pass it.
      exact (nearestUnits_le_two_pow below).trans
        (two_pow_le_nearestUnits (Nat.log2_self_le positive.ne'))
    · have notZero : units ≠ 0 := (Nat.lt_of_lt_of_le (Nat.two_pow_pos _) reached).ne'
      have lower := (Nat.le_log2 notZero).mpr reached
      have upper := (Nat.log2_lt notZero).mpr (ordered.trans_lt Nat.lt_log2_self)
      have sameSize : units.log2 = other.log2 := by omega
      simp only [nearestUnits, Nat.div_one, Nat.one_mul, spacing, sameSize]
      exact Nat.mul_le_mul_right _ (roundedQuotient_mono _ ordered)

/-- Rounding ends at a magnitude of 53 significant bits, also where it gains a bit. -/
theorem spacing_dvd_nearestUnits (units : Nat) :
    spacing (nearestUnits units 1) ∣ nearestUnits units 1 := by
  rcases Nat.eq_zero_or_pos units with rfl | positive
  · simp [nearestUnits, roundedQuotient]
  · have lower := two_pow_le_nearestUnits (Nat.log2_self_le positive.ne')
    have upper : nearestUnits units 1 ≤ 2 ^ (units.log2 + 1) :=
      nearestUnits_le_two_pow Nat.lt_log2_self
    rcases upper.eq_or_lt with gained | kept
    · rw [gained, spacing, Nat.log2_two_pow, Nat.one_shiftLeft]
      exact Nat.pow_dvd_pow 2 (Nat.sub_le _ _)
    · have notZero := (Nat.lt_of_lt_of_le (Nat.two_pow_pos _) lower).ne'
      have sameSize : (nearestUnits units 1).log2 = units.log2 :=
        (Nat.log2_eq_iff notZero).mpr ⟨lower, kept⟩
      have sameSpacing : spacing (nearestUnits units 1) = spacing units := by
        rw [spacing, sameSize, spacing]
      rw [sameSpacing, nearestUnits, Nat.div_one]
      exact Nat.dvd_mul_left _ _

theorem spacing_dvd_two_pow {units power : Nat} (small : units < 2 ^ (53 + power)) :
    spacing units ∣ 2 ^ power := by
  rw [spacing, Nat.one_shiftLeft]
  apply Nat.pow_dvd_pow
  rcases Nat.eq_zero_or_pos units with rfl | positive
  · simp
  · have bits := (Nat.log2_lt positive.ne').mpr small
    omega

/-! ## Integers -/

namespace Double

def unitsOf (number : Int) : Nat :=
  nearestUnits (number.natAbs * unitsPerOne) 1

def signedUnitsOf (number : Int) : Int :=
  if number < 0 then -(unitsOf number : Int) else unitsOf number

variable {number left right : Int}

theorem unitsOf_mono (ordered : left.natAbs ≤ right.natAbs) : unitsOf left ≤ unitsOf right :=
  nearestUnits_mono (Nat.mul_le_mul_right _ ordered)

theorem unitsOf_pos (notZero : number ≠ 0) : 0 < unitsOf number := by
  have some : 2 ^ 0 ≤ number.natAbs * unitsPerOne :=
    Nat.mul_pos (Int.natAbs_pos.mpr notZero) unitsPerOne_pos
  exact two_pow_le_nearestUnits some

theorem signedUnitsOf_mono (ordered : left ≤ right) : signedUnitsOf left ≤ signedUnitsOf right := by
  unfold signedUnitsOf
  split_ifs with leftNegative rightNegative
  · have magnitudes : unitsOf right ≤ unitsOf left := unitsOf_mono (by omega)
    omega
  · omega
  · omega
  · have magnitudes : unitsOf left ≤ unitsOf right := unitsOf_mono (by omega)
    omega

theorem ofInt_eq_ofUnits (number : Int) : ofInt number = ofUnits (number < 0) (unitsOf number) :=
  rfl

theorem ofInt_eq_of_signedUnitsOf_eq (same : signedUnitsOf left = signedUnitsOf right) :
    ofInt left = ofInt right := by
  have leftPositive : left ≠ 0 → 0 < unitsOf left := unitsOf_pos
  have rightPositive : right ≠ 0 → 0 < unitsOf right := unitsOf_pos
  have signs : left < 0 ↔ right < 0 := by
    unfold signedUnitsOf at same
    split_ifs at same <;> omega
  have magnitudes : unitsOf left = unitsOf right := by
    unfold signedUnitsOf at same
    split_ifs at same <;> omega
  simp only [ofInt_eq_ofUnits, signs, magnitudes]

section Held

variable (held : Number.holdsInteger number = true)
include held

theorem natAbs_of_holdsInteger : number.natAbs < 2 ^ 64 := by
  rw [Number.holdsInteger, Bool.and_eq_true, decide_eq_true_eq, decide_eq_true_eq] at held
  omega

theorem representable_unitsOf : Representable (unitsOf number) := by
  refine ⟨?_, Nat.mod_eq_zero_of_dvd (spacing_dvd_nearestUnits _)⟩
  have small := natAbs_of_holdsInteger held
  have bound : 2 ^ 64 * unitsPerOne < overflowUnits := by decide +kernel
  obtain ⟨power, isPower⟩ := unitsPerOne_eq_two_pow
  rw [isPower, ← Nat.pow_add] at bound
  refine Nat.lt_of_le_of_lt (nearestUnits_le_two_pow ?_) bound
  rw [isPower, Nat.pow_add]
  exact Nat.mul_lt_mul_of_pos_right small (Nat.two_pow_pos power)

theorem ofInt_eq_finite :
    ofInt number = .finite ⟨number < 0, unitsOf number, representable_unitsOf held⟩ :=
  dif_pos (representable_unitsOf held)

end Held

theorem signedUnits_of_ofInt {double : FiniteDouble} (nearest : ofInt number = .finite double) :
    double.signedUnits = signedUnitsOf number := by
  rw [ofInt_eq_ofUnits, ofUnits] at nearest
  split at nearest
  next representable =>
    cases nearest
    simp [FiniteDouble.signedUnits, signedUnitsOf]
  next => cases nearest

theorem signedUnitsOf_eq_iff (rightHeld : Number.holdsInteger right = true) :
    signedUnitsOf left = signedUnitsOf right ↔ ofInt left = ofInt right := by
  constructor
  · exact ofInt_eq_of_signedUnitsOf_eq
  · intro same
    have nearest := ofInt_eq_finite rightHeld
    rw [← signedUnits_of_ofInt nearest, ← signedUnits_of_ofInt (same.trans nearest)]

/-- The order of the nearest doubles is that of the integers, unless they are the same double. -/
theorem compare?_ofInt (leftHeld : Number.holdsInteger left = true)
    (rightHeld : Number.holdsInteger right = true) :
    (ofInt left).compare? (ofInt right) =
      some (if ofInt left = ofInt right then .eq else Ord.compare left right) := by
  have compared : (ofInt left).compare? (ofInt right) =
      some (Ord.compare (signedUnitsOf left) (signedUnitsOf right)) := by
    have leftNearest := ofInt_eq_finite leftHeld
    have rightNearest := ofInt_eq_finite rightHeld
    rw [← signedUnits_of_ofInt leftNearest, ← signedUnits_of_ofInt rightNearest, leftNearest,
      rightNearest, compare?]
  rw [compared]
  split_ifs with same <;> rw [← signedUnitsOf_eq_iff rightHeld] at same
  · rw [compare_eq_iff_eq.mpr same]
  · rcases lt_trichotomy left right with less | equal | greater
    · have units := (signedUnitsOf_mono less.le).lt_of_ne same
      rw [compare_lt_iff_lt.mpr less, compare_lt_iff_lt.mpr units]
    · exact absurd (congrArg signedUnitsOf equal) same
    · have units := (signedUnitsOf_mono greater.le).lt_of_ne' same
      rw [compare_gt_iff_gt.mpr greater, compare_gt_iff_gt.mpr units]

theorem unitsOf_exact (small : number.natAbs < 2 ^ 53) :
    unitsOf number = number.natAbs * unitsPerOne := by
  have representable : Representable (number.natAbs * unitsPerOne) := by
    have bound : 2 ^ 53 * unitsPerOne < overflowUnits := by decide +kernel
    have below : number.natAbs * unitsPerOne < 2 ^ 53 * unitsPerOne :=
      Nat.mul_lt_mul_of_pos_right small unitsPerOne_pos
    refine ⟨below.trans bound, Nat.mod_eq_zero_of_dvd ?_⟩
    obtain ⟨power, isPower⟩ := unitsPerOne_eq_two_pow
    rw [isPower] at below ⊢
    rw [← Nat.pow_add] at below
    exact (spacing_dvd_two_pow below).trans (Nat.dvd_mul_left _ _)
  have exact := nearestUnits_exact representable Nat.one_pos
  rwa [Nat.mul_one] at exact

theorem eq_of_ofInt_eq (leftHeld : Number.holdsInteger left = true)
    (rightHeld : Number.holdsInteger right = true) (small : left.natAbs < 2 ^ 53)
    (same : ofInt left = ofInt right) : left = right := by
  rw [ofInt_eq_finite leftHeld, ofInt_eq_finite rightHeld] at same
  simp only [finite.injEq, FiniteDouble.mk.injEq, decide_eq_decide, unitsOf_exact small] at same
  obtain ⟨signs, magnitudes⟩ := same
  have rightSmall : right.natAbs < 2 ^ 53 := by
    rw [← Nat.not_le]
    intro large
    have rounded : 2 ^ 53 * unitsPerOne ≤ unitsOf right := by
      rw [unitsOf]
      obtain ⟨power, isPower⟩ := unitsPerOne_eq_two_pow
      rw [isPower, ← Nat.pow_add]
      apply two_pow_le_nearestUnits
      rw [Nat.pow_add]
      exact Nat.mul_le_mul_right _ large
    have fewer := Nat.mul_lt_mul_of_pos_right small unitsPerOne_pos
    omega
  rw [unitsOf_exact rightSmall] at magnitudes
  have absolute := Nat.eq_of_mul_eq_mul_right unitsPerOne_pos magnitudes
  omega

end Double

end JsonQuery
