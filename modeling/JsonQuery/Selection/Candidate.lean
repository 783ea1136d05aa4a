import JsonQuery.Filter.Evaluate
import JsonQuery.Selection.Range
import JsonQuery.Text.Digits

/-!
Candidates: what a query has selected between two steps, and how selectors and predicates change
them. A candidate is a visited node, or the group of nodes that a slice has made into an array.
-/

namespace JsonQuery

/-- A node together with the nodes that were passed on the way to it, nearest first. -/
structure Visit (ν : Type) where
  node : ν
  ancestors : List ν

inductive Candidate (ν : Type) where
  | node (visit : Visit ν)
  | group (members : List (Visit ν))

variable {ν : Type} [Node ν]

namespace Visit

def child (visit : Visit ν) (node : ν) : Visit ν :=
  ⟨node, visit.node :: visit.ancestors⟩

def children (visit : Visit ν) : List (Visit ν) :=
  (Node.children visit.node).map visit.child

def parent? (visit : Visit ν) : Option (Visit ν) :=
  match visit.ancestors with
  | [] => none
  | node :: ancestors => some ⟨node, ancestors⟩

def field? (visit : Visit ν) (name : String) : Option (Visit ν) :=
  match Node.kind visit.node with
  | .object => (Node.field visit.node name).map visit.child
  | .array =>
    (Digits.readCount? name.toList).bind fun position =>
      (Node.element visit.node position).map visit.child
  | _ => none

def isAmong (visit : Visit ν) (visits : List (Visit ν)) : Bool :=
  visits.any fun other => Node.same other.node visit.node

def addTo (visit : Visit ν) (visits : List (Visit ν)) : List (Visit ν) :=
  if visit.isAmong visits then visits else visits ++ [visit]

/-- Adds the members called `name` at and below a node to those found, parents before children.
The search may go `levels - 1` levels deep and fails if there is anything below that. -/
def descend (context : Context) (name : String) :
    (levels : Nat) → Visit ν → (found : List (Visit ν)) → Traced (List (Visit ν))
  | 0, _, _ => do
    Traced.notice (.descentTooDeep name context.maxDepth)
    Traced.ofExcept (.error (.tooDeep context.maxDepth))
  | levels + 1, visit, found =>
    let member := match Node.kind visit.node with
      | .object => (Node.field visit.node name).map visit.child
      | _ => none
    let found := match member with
      | some member => member.addTo found
      | none => found
    visit.children.foldlM (fun found child => descend context name levels child found) found

end Visit

namespace Candidate

def flatten (candidates : List (Candidate ν)) : List (Visit ν) :=
  candidates.flatMap fun
    | .node visit => [visit]
    | .group members => members

def atIndex? (position : Int) : Candidate ν → Option (Candidate ν)
  | .group members => do
    let index ← resolveIndex? position members.length
    let member ← members[index]?
    some (.node member)
  | .node visit =>
    match Node.kind visit.node with
    | .array => do
      let index ← resolveIndex? position (Node.length visit.node)
      let element ← Node.element visit.node index
      some (.node (visit.child element))
    | _ => none

def slice? (start stop : Option Int) : Candidate ν → Option (Candidate ν)
  | .group members => some (.group (sliceOf start stop members))
  | .node visit =>
    match Node.kind visit.node with
    | .array => some (.group (sliceOf start stop visit.children))
    | _ => none

/-- The visits that a filter tests for a candidate: the members of a group, the elements of an
array unless the step fans out, and otherwise the node itself. -/
def tested (fanOut : Bool) : Candidate ν → List (Visit ν)
  | .group members => members
  | .node visit =>
    match fanOut, Node.kind visit.node with
    | false, .array => visit.children
    | _, _ => [visit]

end Candidate

def Traced.filter (test : ν → Traced Bool) : List (Visit ν) → Traced (List (Visit ν))
  | [] => return []
  | visit :: visits => do
    let passes ← test visit.node
    let others ← Traced.filter test visits
    return if passes then visit :: others else others

def Selector.apply (context : Context) (candidates : List (Candidate ν)) :
    Selector → Traced (List (Candidate ν))
  | .current => return candidates
  | .index position => return candidates.filterMap (·.atIndex? position)
  | .slice start stop => return candidates.filterMap (·.slice? start stop)
  | .field name =>
    return (Candidate.flatten candidates).filterMap fun visit =>
      (visit.field? name).map .node
  | .wildcard => return (Candidate.flatten candidates).flatMap fun visit =>
      visit.children.map .node
  | .recursive name => do
    let found ← (Candidate.flatten candidates).foldlM
      (fun found visit => visit.descend context name (context.maxDepth + 1) found) []
    return found.map .node
  | .parent =>
    let parents := (Candidate.flatten candidates).filterMap Visit.parent?
    return (parents.foldl (fun found parent => parent.addTo found) []).map .node

def Predicate.apply (context : Context) (fanOut : Bool) (candidates : List (Candidate ν)) :
    Predicate → Traced (List (Candidate ν))
  | .index position => return candidates.filterMap (·.atIndex? position)
  | .slice start stop => return candidates.filterMap (·.slice? start stop)
  | .filter condition => do
    let kept ← Traced.filter (fun node => condition.evaluate context node)
      (candidates.flatMap (·.tested fanOut))
    return kept.map .node

def Step.apply (context : Context) (candidates : List (Candidate ν)) (step : Step) :
    Traced (List (Candidate ν)) := do
  let selected ← step.selector.apply context candidates
  step.predicates.foldlM (fun selected predicate =>
    predicate.apply context step.selector.isFanOut selected) selected

end JsonQuery
