import JsonQuery.Selection.Candidate

/-!
Running a query from a node.
-/

namespace JsonQuery

/-- One result of a query: a node of the source, or an array put together by a slice. -/
inductive Match (ν : Type) where
  | node (found : ν)
  | array (elements : List ν)

variable {ν : Type} [Node ν]

def Match.decode : Match ν → Except QueryError Json
  | .node found => Node.decode found
  | .array elements => (elements.mapM Node.decode).map .array

def Candidate.toMatch : Candidate ν → Match ν
  | .node visit => .node visit.node
  | .group members => .array (members.map Visit.node)

namespace Query

def candidates (query : Query) (context : Context) (node : ν) : Traced (List (Candidate ν)) :=
  query.steps.foldlM (Step.apply context) [.node ⟨node, []⟩]

def execute (query : Query) (context : Context) (node : ν) : Traced (List (Match ν)) := do
  return (← query.candidates context node).map Candidate.toMatch

def select (query : Query) (context : Context) (node : ν) : Traced (List Json) := do
  let found ← query.execute context node
  Traced.ofExcept (found.mapM Match.decode)

end Query

end JsonQuery
