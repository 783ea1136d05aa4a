import JsonQuery.Number.Decimal

/-!
The shortest decimal that reads back as a given double. On the grid of decimals with a given
number of digits only the two neighbours of the exact value need to be tried; the first grid with
a neighbour that reads back wins, and of two such neighbours the nearer one.
-/

namespace JsonQuery.FiniteDouble

def exactDecimal (value : FiniteDouble) : Decimal where
  negative := value.negative
  coefficient := value.units * Nat.pow 5 1074
  exponent := -1074

def ReadsBack (value : FiniteDouble) (decimal : Decimal) : Prop :=
  decimal.toDouble = .finite value

instance (value : FiniteDouble) (decimal : Decimal) : Decidable (value.ReadsBack decimal) :=
  inferInstanceAs (Decidable (_ = _))

/-- The decimal nearest to the exact value when its last `dropped` digits are given up, among
those that read back. Of two at the same distance the one with the even last digit is taken. -/
def withoutDigits? (value : FiniteDouble) (dropped : Nat) : Option Decimal :=
  let exact := value.exactDecimal
  let step := Nat.pow 10 dropped
  let below : Decimal :=
    { exact with coefficient := exact.coefficient / step, exponent := dropped - 1074 }
  let above : Decimal := { below with coefficient := below.coefficient + 1 }
  let nearest : Decimal := { below with coefficient := roundedQuotient exact.coefficient step }
  if value.ReadsBack below then
    some (if value.ReadsBack above then nearest else below)
  else if value.ReadsBack above then some above
  else none

/-- Tries one to seventeen digits. Seventeen always suffice, so the exact value is never
needed. -/
def shortest (value : FiniteDouble) : Decimal :=
  let length := (Digits.ofNat value.exactDecimal.coefficient).length
  ((List.range 17).findSome? fun digits =>
    value.withoutDigits? (length - (digits + 1))).getD value.exactDecimal

end JsonQuery.FiniteDouble
