import JsonQuery.Filter.Function
import JsonQuery.Notice
import JsonQuery.Source.Node

/-!
The meaning of a filter expression for a node. As a condition it holds or not; as an operand it
stands for a literal, a value or nothing. Only decoding can fail, and only a call of an unknown
function gives notice.
-/

namespace JsonQuery

structure Context where
  functions : Registry
  maxDepth : Nat

def defaultMaxDepth : Nat := 128

/-- Calls a function by name. The arguments of an unknown one are not worked out. -/
def Context.call (context : Context) (name : String)
    (arguments : Unit → Traced (List Operand)) : Traced Operand :=
  match context.functions.find? name with
  | some function => do return function (← arguments ())
  | none => do
    Traced.notice (.unknownFunction name)
    return .absent

namespace Expression

variable {ν : Type} [Node ν]

def resolveReference (node : ν) (segments : List Segment) : Traced Operand :=
  match Node.followAll? node segments with
  | some found => do return .value (← Traced.ofExcept (Node.decode found))
  | none => return .absent

mutual

/-- Whether an expression holds for a node. A reference holds if it leads anywhere. -/
def evaluate (context : Context) (node : ν) : Expression → Traced Bool
  | .literal value => return value.truth
  | .reference segments => return (Node.followAll? node segments).isSome
  | .call name arguments => do
    let answer ← context.call name fun _ => resolveAll context node arguments
    return answer.truth
  | .binary .and left right => do
    if ← evaluate context node left then evaluate context node right else return false
  | .binary .or left right => do
    if ← evaluate context node left then return true else evaluate context node right
  | .binary operator left right => do
    let left ← resolve context node left
    let right ← resolve context node right
    return operator.compare left right
  | .not operand => do return !(← evaluate context node operand)

def resolve (context : Context) (node : ν) : Expression → Traced Operand
  | .literal value => return .literal value
  | .reference segments => resolveReference node segments
  | .call name arguments => context.call name fun _ => resolveAll context node arguments
  | .binary .and left right => do
    if ← evaluate context node left then
      return .ofBool (← evaluate context node right)
    else return .ofBool false
  | .binary .or left right => do
    if ← evaluate context node left then return .ofBool true
    else return .ofBool (← evaluate context node right)
  | .binary operator left right => do
    let left ← resolve context node left
    let right ← resolve context node right
    return .ofBool (operator.compare left right)
  | .not operand => do return .ofBool !(← evaluate context node operand)

def resolveAll (context : Context) (node : ν) : List Expression → Traced (List Operand)
  | [] => return []
  | expression :: expressions => do
    let operand ← resolve context node expression
    let operands ← resolveAll context node expressions
    return operand :: operands

end

end Expression

end JsonQuery
