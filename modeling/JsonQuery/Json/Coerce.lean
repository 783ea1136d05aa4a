import JsonQuery.Json.Basic

/-!
JSON values read as booleans, numbers and integers. Strings that spell a boolean or a number count
as well; nothing is trimmed.
-/

namespace JsonQuery.Json

def asBool? : Json → Option Bool
  | .bool value => some value
  | .number value => some !value.toDouble.isZero
  | .string text =>
    if text = "true" then some true else if text = "false" then some false else none
  | _ => none

def asNumber? : Json → Option Double
  | .number value => some value.toDouble
  | .string text => do
    let number ← Double.read? text.toList
    let finite ← number.finite?
    some (.finite finite)
  | _ => none

def asInt? (value : Json) : Option Int :=
  let wide := do
    let double ← value.asNumber?
    let finite ← double.finite?
    let whole ← finite.toInt?
    if -0x8000000000000000 ≤ whole ∧ whole < 0x8000000000000000 then some whole else none
  match value with
  | .number (.integer whole) => if whole < 0x8000000000000000 then some whole else wide
  | _ => wide

end JsonQuery.Json
