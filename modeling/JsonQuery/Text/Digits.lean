/-!
Decimal digits: reading them as a number, writing a number with them, and the bounded integers
that the path language spells with them.
-/

namespace JsonQuery.Digits

def value (digit : Char) : Nat :=
  digit.toNat - '0'.toNat

def toNat (digits : List Char) : Nat :=
  digits.foldl (fun total digit => total * 10 + value digit) 0

def ofNat (number : Nat) : List Char :=
  Nat.toDigits 10 number

def ofInt (number : Int) : List Char :=
  if number < 0 then '-' :: ofNat number.natAbs else ofNat number.natAbs

def readNat? (text : List Char) : Option Nat :=
  if text ≠ [] ∧ text.all Char.isDigit then some (toNat text) else none

def readCount? (text : List Char) : Option Nat := do
  let digits := match text with
    | '+' :: digits => digits
    | digits => digits
  let number ← readNat? digits
  if number < 0x10000000000000000 then some number else none

def readInteger? (text : List Char) : Option Int := do
  let number ← match text with
    | '-' :: digits => (readNat? digits).map fun number => -(number : Int)
    | '+' :: digits => (readNat? digits).map Int.ofNat
    | digits => (readNat? digits).map Int.ofNat
  if -0x8000000000000000 ≤ number ∧ number < 0x8000000000000000 then some number else none

end JsonQuery.Digits
