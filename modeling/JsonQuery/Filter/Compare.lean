import JsonQuery.Filter.Operand

/-!
Comparing operands. A literal decides how the other side is read: as a boolean, a number, a string
or null. Two values are compared as if the right one were a literal, unless one is a container.
A comparison between sides that do not fit is false, whatever the operator.
-/

namespace JsonQuery

namespace Operator

def converse : Operator → Operator
  | .less => .greater
  | .lessOrEqual => .greaterOrEqual
  | .greater => .less
  | .greaterOrEqual => .lessOrEqual
  | operator => operator

def holds : Operator → Ordering → Bool
  | .equal, ordering => ordering == .eq
  | .notEqual, ordering => ordering != .eq
  | .less, ordering => ordering == .lt
  | .lessOrEqual, ordering => ordering != .gt
  | .greater, ordering => ordering == .gt
  | .greaterOrEqual, ordering => ordering != .lt
  | .and, _ | .or, _ => false

/-- Whether an operator holds of two sides of which only equality can be told. -/
def holdsEquality : Operator → Bool → Bool
  | .equal, sidesEqual => sidesEqual
  | .notEqual, sidesEqual => !sidesEqual
  | _, _ => false

def compareWith (operator : Operator) (candidate : Option Json) : Literal → Bool
  | .null =>
    operator.holdsEquality <| match candidate with
      | none | some .null => true
      | some _ => false
  | .bool expected =>
    match candidate.bind Json.asBool? with
    | some actual => operator.holdsEquality (actual == expected)
    | none => false
  | .string expected =>
    match candidate with
    | some (.string actual) => operator.holds (Ord.compare actual expected)
    | _ => false
  | .number expected =>
    match (candidate.bind Json.asNumber?).bind (·.compare? expected) with
    | some ordering => operator.holds ordering
    | none => false

def compareWithValue (operator : Operator) (candidate : Option Json) (value : Json) : Bool :=
  match value.toLiteral? with
  | some literal => operator.compareWith candidate literal
  | none => false

def compareValues (operator : Operator) (left right : Json) : Bool :=
  if left.isContainer || right.isContainer then
    operator.holdsEquality (left.equals right)
  else operator.compareWithValue (some left) right

def compare (operator : Operator) : Operand → Operand → Bool
  | .literal left, .literal right => operator.compareWith (some left.toJson) right
  | .value left, .literal right => operator.compareWith (some left) right
  | .absent, .literal right => operator.compareWith none right
  | .literal left, .value right => operator.converse.compareWith (some right) left
  | .literal left, .absent => operator.converse.compareWith none left
  | .value left, .value right => operator.compareValues left right
  | .absent, .value right => operator.compareWithValue none right
  | .value left, .absent => operator.converse.compareWithValue none left
  | .absent, .absent => operator.compareWith none .null

end Operator

end JsonQuery
