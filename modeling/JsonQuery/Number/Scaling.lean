import JsonQuery.Number.Double

/-!
Doubles made from a whole number and a power of ten by the operations of doubles alone. The whole
number and the power are rounded before they are multiplied or divided, and the result is rounded
again. So it may be another double than the nearest one.

Magnitudes are counted in units and are those of doubles throughout.
-/

namespace JsonQuery

def wholeUnits (number : Nat) : Nat :=
  nearestUnits (number * unitsPerOne) 1

def productUnits (left right : Nat) : Nat :=
  nearestUnits (left * right) unitsPerOne

def quotientUnits (left right : Nat) : Nat :=
  nearestUnits (left * unitsPerOne) right

def powerUnits (exponent : Nat) : Nat :=
  wholeUnits (Nat.pow 10 exponent)

def greatestPower : Nat := 308

/-- Divides by a power of ten, and by the greatest one as often as that is not enough. -/
def dividedUnits (units places : Nat) : Nat :=
  if places ≤ greatestPower then quotientUnits units (powerUnits places)
  else if units = 0 then 0
  else dividedUnits (quotientUnits units (powerUnits greatestPower)) (places - greatestPower)
termination_by places
decreasing_by
  rename_i beyond _
  exact Nat.sub_lt (Nat.lt_of_le_of_lt (Nat.zero_le _) (Nat.not_le.mp beyond)) (by decide)

namespace FiniteDouble

def ofScaled? (negative : Bool) (number : Nat) (exponent : Int) : Option FiniteDouble :=
  let units := wholeUnits number
  if exponent < 0 then (Double.ofUnits negative (dividedUnits units exponent.natAbs)).finite?
  else if exponent ≤ greatestPower then
    (Double.ofUnits negative (productUnits units (powerUnits exponent.natAbs))).finite?
  else if units = 0 then some (zero negative)
  else none

end FiniteDouble

end JsonQuery
