import JsonQuery.Number.Decimal

/-!
JSON values. Integers and doubles are different numbers even where they are equal as quantities,
and an object is a list of members in the order in which they were written.
-/

namespace JsonQuery

inductive Number where
  | integer (value : Int)
  | double (value : FiniteDouble)
  deriving DecidableEq

inductive Json where
  | null
  | bool (value : Bool)
  | number (value : Number)
  | string (text : String)
  | array (elements : List Json)
  | object (members : List (String × Json))

inductive Kind where
  | null
  | bool
  | number
  | string
  | array
  | object
  deriving DecidableEq

def Kind.name : Kind → String
  | .null => "null"
  | .bool => "bool"
  | .number => "number"
  | .string => "string"
  | .array => "array"
  | .object => "object"

def Kind.isContainer : Kind → Bool
  | .array | .object => true
  | _ => false

namespace Number

def holdsInteger (value : Int) : Bool :=
  -0x8000000000000000 ≤ value && value < 0x10000000000000000

def toDouble : Number → Double
  | .integer value => Double.ofInt value
  | .double value => .finite value

/-- Integers are equal to integers and doubles to doubles. The two zeros are equal doubles. -/
def equals : Number → Number → Bool
  | .integer left, .integer right => left == right
  | .double left, .double right => left.signedUnits == right.signedUnits
  | _, _ => false

end Number

namespace Json

def kind : Json → Kind
  | .null => .null
  | .bool _ => .bool
  | .number _ => .number
  | .string _ => .string
  | .array _ => .array
  | .object _ => .object

def isContainer (value : Json) : Bool :=
  value.kind.isContainer

mutual

def equals : Json → Json → Bool
  | .null, .null => true
  | .bool left, .bool right => left == right
  | .number left, .number right => left.equals right
  | .string left, .string right => left == right
  | .array left, .array right => equalElements left right
  | .object left, .object right => left.length == right.length && equalMembers left right
  | _, _ => false

def equalElements : List Json → List Json → Bool
  | [], [] => true
  | left :: lefts, right :: rights => equals left right && equalElements lefts rights
  | _, _ => false

def equalMembers : List (String × Json) → List (String × Json) → Bool
  | [], _ => true
  | (name, left) :: lefts, rights =>
    (match rights.lookup name with
      | some right => equals left right
      | none => false) && equalMembers lefts rights

end

def putMember (name : String) (value : Json) : List (String × Json) → List (String × Json)
  | [] => [(name, value)]
  | (other, old) :: members =>
    if other = name then (other, value) :: members
    else (other, old) :: putMember name value members

/-- The members of an object in which names may be repeated: a name keeps its first place and its
last value. -/
def mergeMembers (members : List (String × Json)) : List (String × Json) :=
  members.foldl (fun merged member => putMember member.1 member.2 merged) []

def eraseMember (name : String) (members : List (String × Json)) : List (String × Json) :=
  members.eraseP fun member => member.1 = name

end Json

end JsonQuery
