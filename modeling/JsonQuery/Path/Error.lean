import JsonQuery.Path.Token

/-!
What can go wrong with a query: its text is refused, it descends too deeply, or a node that it
touches does not decode.
-/

namespace JsonQuery

inductive QueryError where
  | malformed (path : String) (position : Nat) (message : String)
  | tooDeep (limit : Nat)
  | undecodable (detail : String)
  deriving DecidableEq

namespace QueryError

def message : QueryError → String
  | .malformed path position message =>
    s!"Path syntax error in '{path}' at offset {position}: {message}"
  | .tooDeep limit => s!"Recursion depth limit of {limit} exceeded"
  | .undecodable detail => s!"Matched value could not be decoded: {detail}"

def ofRefusal (path : String) (refusal : Refusal) : QueryError :=
  .malformed path refusal.position refusal.complaint.message

end QueryError

end JsonQuery
