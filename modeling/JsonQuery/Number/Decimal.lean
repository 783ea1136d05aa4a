import JsonQuery.Number.Double
import JsonQuery.Text.Digits

/-!
Decimal numbers: a coefficient times a power of ten. They are read from text, rounded to the
nearest double, and written in the notation that JSON text uses for doubles.
-/

namespace JsonQuery

structure Decimal where
  negative : Bool
  coefficient : Nat
  exponent : Int
  deriving DecidableEq

namespace Decimal

/-! ## Reading -/

def ofParts (negative : Bool) (whole fraction : List Char) (exponent : Int) : Decimal where
  negative := negative
  coefficient := Digits.toNat (whole ++ fraction)
  exponent := exponent - fraction.length

def splitSign : List Char → Bool × List Char
  | '-' :: text => (true, text)
  | '+' :: text => (false, text)
  | text => (false, text)

def readExponent? : List Char → Option Int
  | [] => some 0
  | mark :: text =>
    if mark = 'e' ∨ mark = 'E' then
      let (negative, digits) := splitSign text
      (Digits.readNat? digits).map fun number => if negative then -(number : Int) else number
    else none

def read? (text : List Char) : Option Decimal := do
  let (negative, text) := splitSign text
  let whole := text.takeWhile Char.isDigit
  let text := text.dropWhile Char.isDigit
  let (fraction, text) := match text with
    | '.' :: text => (text.takeWhile Char.isDigit, text.dropWhile Char.isDigit)
    | text => ([], text)
  let exponent ← readExponent? text
  if whole = [] ∧ fraction = [] then none
  else some (ofParts negative whole fraction exponent)

/-! ## Rounding -/

/-- The nearest double, ties to even. Beyond 10 ^ 310 every double has overflowed, and below
10 ^ -330 it has vanished; only in between are the powers of ten worked out. -/
def toDouble (decimal : Decimal) : Double :=
  let size : Int := decimal.exponent + (Digits.ofNat decimal.coefficient).length
  if decimal.coefficient = 0 ∨ size < -330 then
    .finite (FiniteDouble.zero decimal.negative)
  else if 310 < size then
    .infinite decimal.negative
  else if decimal.exponent < 0 then
    Double.ofRatio decimal.negative decimal.coefficient (Nat.pow 10 decimal.exponent.natAbs)
  else
    Double.ofRatio decimal.negative (decimal.coefficient * Nat.pow 10 decimal.exponent.natAbs) 1

/-! ## Writing -/

def positional (digits : List Char) (exponent : Int) : List Char :=
  if exponent < 0 then
    "0.".toList ++ List.replicate (exponent.natAbs - 1) '0' ++ digits
  else
    let places := exponent.natAbs + 1
    let whole := digits.take places ++ List.replicate (places - digits.length) '0'
    let fraction := digits.drop places
    whole ++ '.' :: (if fraction = [] then ['0'] else fraction)

def scientific (digits : List Char) (exponent : Int) : List Char :=
  let fraction := digits.drop 1
  let sign := if exponent < 0 then '-' else '+'
  digits.take 1 ++ (if fraction = [] then [] else '.' :: fraction) ++
    'e' :: sign :: Digits.ofNat exponent.natAbs

/-- The JSON text of a decimal: positional when the leading digit stands for 10 ^ -5 to 10 ^ 15,
scientific otherwise. Zeros at the end of the coefficient are not written. -/
def write (decimal : Decimal) : List Char :=
  let sign := if decimal.negative then ['-'] else []
  if decimal.coefficient = 0 then
    sign ++ "0.0".toList
  else
    let all := Digits.ofNat decimal.coefficient
    let digits := (all.reverse.dropWhile (· = '0')).reverse
    let exponent := decimal.exponent + all.length - 1
    sign ++ (if -5 ≤ exponent ∧ exponent ≤ 15 then positional digits exponent
      else scientific digits exponent)

example : write ⟨false, 15, 299⟩ = "1.5e+300".toList := rfl
example : write ⟨true, 125, -7⟩ = "-0.0000125".toList := rfl

end Decimal

def Double.read? (text : List Char) : Option Double :=
  let (negative, name) := Decimal.splitSign text
  let name := name.map Char.toLower
  if name = "nan".toList then some .notANumber
  else if name = "inf".toList ∨ name = "infinity".toList then some (.infinite negative)
  else (Decimal.read? text).map Decimal.toDouble

end JsonQuery
