import JsonQuery.Filter.Compare
import JsonQuery.Text.LowerCase

/-!
The functions that a filter can call, and the registry that finds them by name in any case.
-/

namespace JsonQuery

abbrev Function := List Operand → Operand

structure Registry where
  entries : List (String × Function)

namespace Registry

def empty : Registry := ⟨[]⟩

def register (registry : Registry) (name : String) (function : Function) : Registry :=
  ⟨(Text.lowerCase name, function) :: registry.entries⟩

def find? (registry : Registry) (name : String) : Option Function :=
  registry.entries.lookup (Text.lowerCase name)

end Registry

namespace Function

/-! ## Built-in functions -/

def isPresent : Function
  | argument :: _ => .ofBool !argument.isAbsent
  | [] => .ofBool false

def includes : Function
  | .value (.array elements) :: wanted :: _ =>
    .ofBool (elements.any fun element => Operator.compare .equal (.value element) wanted)
  | _ => .ofBool false

def length : Function
  | .value (.array elements) :: _ => .value (.number (.integer elements.length))
  | .value (.object members) :: _ => .value (.number (.integer members.length))
  | argument :: _ =>
    match argument.text? with
    | some text => .value (.number (.integer text.length))
    | none => .absent
  | [] => .absent

def occursIn (wanted : List Char) : List Char → Bool
  | [] => wanted.isEmpty
  | character :: text => wanted.isPrefixOf (character :: text) || occursIn wanted text

def contains : Function
  | within :: wanted :: _ =>
    match within.text?, wanted.text? with
    | some within, some wanted => .ofBool (occursIn wanted.toList within.toList)
    | _, _ => .ofBool false
  | _ => .ofBool false

end Function

def Registry.builtIn : Registry :=
  Registry.empty
    |>.register "exists" Function.isPresent
    |>.register "includes" Function.includes
    |>.register "length" Function.length
    |>.register "contains" Function.contains

end JsonQuery
