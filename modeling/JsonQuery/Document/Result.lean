import JsonQuery.Document.Error
import JsonQuery.Document.Session
import JsonQuery.Selection.Execute
import JsonQuery.Source.Tree

/-!
The result of a query: the values that matched, or the error that stopped it. An error sticks: a
query on a failed result fails in the same way, and so does every accessor.
-/

namespace JsonQuery

structure QueryResult where
  path : String
  outcome : Except DocumentError (List Json)

namespace QueryResult

def values (result : QueryResult) : List Json :=
  match result.outcome with
  | .ok values => values
  | .error _ => []

def error? (result : QueryResult) : Option DocumentError :=
  match result.outcome with
  | .ok _ => none
  | .error error => some error

def hasMatch (result : QueryResult) : Bool :=
  !result.values.isEmpty

def json (result : QueryResult) : Except DocumentError String :=
  result.outcome.map fun values => (Json.array values).text

/-! ## Accessors -/

def first (result : QueryResult) : Except DocumentError Json := do
  match ← result.outcome with
  | [] => .error (.notFound result.path)
  | value :: _ => .ok value

def firstAs (result : QueryResult) (expected : Expected) (form : Json → Option α) :
    Except DocumentError α := do
  let value ← result.first
  match form value with
  | some answer => .ok answer
  | none => .error (.mismatch expected value)

def string (result : QueryResult) : Except DocumentError String :=
  result.firstAs .string fun
    | .string text => some text
    | _ => none

def int (result : QueryResult) : Except DocumentError Int :=
  result.firstAs .integer Json.asInt?

def double (result : QueryResult) : Except DocumentError Double :=
  result.firstAs .number Json.asNumber?

def bool (result : QueryResult) : Except DocumentError Bool :=
  result.firstAs .bool Json.asBool?

def array (result : QueryResult) : Except DocumentError (List Json) :=
  result.firstAs .array fun
    | .array elements => some elements
    | _ => none

/-! ## Further queries -/

def selectAll (query : Query) (context : Context) : List Json → Traced (List Json)
  | [] => return []
  | value :: values => do
    let found ← query.select context (Place.root value)
    let others ← selectAll query context values
    return found ++ others

def query (result : QueryResult) (path : String) : Shared QueryResult := do
  match result.outcome with
  | .error error => return ⟨path, .error error⟩
  | .ok values =>
    match ← Session.query path with
    | .error error => return ⟨path, .error (.ofQueryError error)⟩
    | .ok query =>
      let found ← Session.answer (selectAll query (← Session.context) values)
      return ⟨path, found.mapError DocumentError.ofQueryError⟩

end QueryResult

end JsonQuery
