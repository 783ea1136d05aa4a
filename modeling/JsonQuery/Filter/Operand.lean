import JsonQuery.Json.Coerce
import JsonQuery.Path.Query

/-!
Operands: what one side of a comparison or one argument of a function turns out to be, and how an
operand is read as a condition or a text.
-/

namespace JsonQuery

inductive Operand where
  /-- A reference that leads nowhere, or a function without an answer. -/
  | absent
  | literal (constant : Literal)
  | value (found : Json)

namespace Literal

def truth : Literal → Bool
  | .null => false
  | .bool value => value
  | .number value => !value.isZero
  | .string text => text = "true"

/-- A literal as a JSON value. JSON has no infinities and no NaN, so those become null. -/
def toJson : Literal → Json
  | .null => .null
  | .bool value => .bool value
  | .number (.finite value) => .number (.double value)
  | .number _ => .null
  | .string text => .string text

end Literal

namespace Json

def toLiteral? : Json → Option Literal
  | .null => some .null
  | .bool value => some (.bool value)
  | .number value => some (.number value.toDouble)
  | .string text => some (.string text)
  | .array _ | .object _ => none

end Json

namespace Operand

def ofBool (value : Bool) : Operand :=
  .literal (.bool value)

def isAbsent : Operand → Bool
  | .absent => true
  | _ => false

def text? : Operand → Option String
  | .literal (.string text) => some text
  | .value (.string text) => some text
  | _ => none

def value? : Operand → Option Json
  | .value found => some found
  | _ => none

def truth : Operand → Bool
  | .absent => false
  | .literal constant => constant.truth
  | .value found => found.asBool?.getD false

end Operand

end JsonQuery
