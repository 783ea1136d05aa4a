import JsonQuery.Number.Double

/-!
Queries: what a path means once it has been read. A query is a list of steps; a step selects
candidates and then refines them with its predicates, and a predicate may hold a filter
expression.
-/

namespace JsonQuery

inductive Segment where
  | key (name : String)
  | index (position : Int)
  deriving DecidableEq

inductive Literal where
  | null
  | bool (value : Bool)
  | number (value : Double)
  | string (text : String)
  deriving DecidableEq

inductive Operator where
  | or
  | and
  | equal
  | notEqual
  | less
  | lessOrEqual
  | greater
  | greaterOrEqual
  deriving DecidableEq

def Operator.isLogical : Operator → Bool
  | .or | .and => true
  | _ => false

inductive Expression where
  | literal (value : Literal)
  | reference (segments : List Segment)
  | call (name : String) (arguments : List Expression)
  | binary (operator : Operator) (left right : Expression)
  | not (operand : Expression)

inductive Predicate where
  | index (position : Int)
  | slice (start stop : Option Int)
  | filter (condition : Expression)

inductive Selector where
  /-- The member of this name, or the element at the position that the name spells. -/
  | field (name : String)
  | index (position : Int)
  /-- The elements between two bounds, as an array of their own. -/
  | slice (start stop : Option Int)
  | wildcard
  | recursive (name : String)
  | parent
  | current

def Selector.isFanOut : Selector → Bool
  | .wildcard | .recursive _ | .slice _ _ => true
  | _ => false

structure Step where
  selector : Selector
  predicates : List Predicate

structure Query where
  steps : List Step

/-! ## Direct queries

A query of field and index steps alone names at most one place, and mutations accept no other.
-/

def Predicate.isIndex : Predicate → Bool
  | .index _ => true
  | _ => false

def Predicate.segment? : Predicate → Option Segment
  | .index position => some (.index position)
  | _ => none

def Selector.isDirect : Selector → Bool
  | .field _ | .index _ => true
  | _ => false

def Selector.segment? : Selector → Option Segment
  | .field name => some (.key name)
  | .index position => some (.index position)
  | _ => none

def Step.isDirect (step : Step) : Bool :=
  step.selector.isDirect && step.predicates.all Predicate.isIndex

def Step.segments? (step : Step) : Option (List Segment) := do
  let first ← step.selector.segment?
  let others ← step.predicates.mapM Predicate.segment?
  some (first :: others)

namespace Query

def isRoot (query : Query) : Bool :=
  query.steps.isEmpty

def isDirect (query : Query) : Bool :=
  query.steps.all Step.isDirect

def directSegments? (query : Query) : Option (List Segment) :=
  (query.steps.mapM Step.segments?).map List.flatten

end Query

end JsonQuery
