/-!
Double-precision numbers as exact integers. Every finite double is a whole number of units of
2 ^ -1074, so comparing two of them is comparing two integers. A magnitude is representable when
it has at most 53 significant bits and stays below 2 ^ 1024.
-/

namespace JsonQuery

def unitsPerOne : Nat := 1 <<< 1074

def overflowUnits : Nat := 1 <<< 2098

theorem overflowUnits_pos : 0 < overflowUnits := by
  rw [overflowUnits, Nat.one_shiftLeft]
  apply Nat.pow_pos
  decide

def spacing (units : Nat) : Nat :=
  1 <<< (units.log2 - 52)

def Representable (units : Nat) : Prop :=
  units < overflowUnits ∧ units % spacing units = 0

instance (units : Nat) : Decidable (Representable units) :=
  inferInstanceAs (Decidable (_ ∧ _))

structure FiniteDouble where
  negative : Bool
  units : Nat
  representable : Representable units
  deriving DecidableEq

inductive Double where
  | notANumber
  | infinite (negative : Bool)
  | finite (value : FiniteDouble)
  deriving DecidableEq

def roundedQuotient (numerator denominator : Nat) : Nat :=
  let quotient := numerator / denominator
  let twice := 2 * (numerator % denominator)
  if twice < denominator then quotient
  else if denominator < twice then quotient + 1
  else if quotient % 2 = 0 then quotient
  else quotient + 1

/-- The magnitude nearest to `numerator / denominator` units among those of 53 significant bits,
and the one with an even last bit of two nearest. -/
def nearestUnits (numerator denominator : Nat) : Nat :=
  let step := spacing (numerator / denominator)
  roundedQuotient numerator (denominator * step) * step

theorem representable_zero : Representable 0 :=
  ⟨overflowUnits_pos, Nat.zero_mod _⟩

namespace FiniteDouble

def zero (negative : Bool) : FiniteDouble :=
  ⟨negative, 0, representable_zero⟩

def signedUnits (value : FiniteDouble) : Int :=
  if value.negative then -(value.units : Int) else value.units

def isZero (value : FiniteDouble) : Bool :=
  value.units = 0

def toInt? (value : FiniteDouble) : Option Int :=
  if value.units % unitsPerOne = 0 then
    let whole : Int := (value.units / unitsPerOne : Nat)
    some (if value.negative then -whole else whole)
  else none

end FiniteDouble

namespace Double

def ofUnits (negative : Bool) (units : Nat) : Double :=
  if representable : Representable units then .finite ⟨negative, units, representable⟩
  else .infinite negative

def ofRatio (negative : Bool) (numerator denominator : Nat) : Double :=
  ofUnits negative (nearestUnits (numerator * unitsPerOne) denominator)

def ofInt (number : Int) : Double :=
  ofRatio (number < 0) number.natAbs 1

def finite? : Double → Option FiniteDouble
  | .finite value => some value
  | _ => none

def isZero : Double → Bool
  | .finite value => value.isZero
  | _ => false

def compare? : Double → Double → Option Ordering
  | .notANumber, _ | _, .notANumber => none
  | .infinite left, .infinite right => some (Ord.compare right left)
  | .infinite negative, .finite _ => some (if negative then .lt else .gt)
  | .finite _, .infinite negative => some (if negative then .gt else .lt)
  | .finite left, .finite right => some (Ord.compare left.signedUnits right.signedUnits)

/-- The bits of the interchange format: sign, exponent and fraction, where the hidden leading bit
of a normal number carries into the exponent field. -/
def toBits : Double → Nat
  | .notANumber => 0x7FF8000000000000
  | .infinite negative => (if negative then 0x8000000000000000 else 0) + 0x7FF0000000000000
  | .finite value =>
    let exponent := value.units.log2 - 52
    (if value.negative then 0x8000000000000000 else 0) + exponent <<< 52 + value.units >>> exponent

end Double

end JsonQuery
