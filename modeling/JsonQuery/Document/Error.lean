import JsonQuery.Json.Basic
import JsonQuery.Path.Error

/-!
What can go wrong with a document: its text, a path, or what a path leads to.
-/

namespace JsonQuery

inductive Expected where
  | string
  | integer
  | number
  | bool
  | array
  | object
  deriving DecidableEq

def Expected.name : Expected → String
  | .string => "string"
  | .integer => "integer"
  | .number => "number"
  | .bool => "bool"
  | .array => "array"
  | .object => "object"

inductive DocumentError where
  | invalidInput (detail : String)
  | invalidPath (path : String) (position : Nat) (message : String)
  | notFound (path : String)
  | typeMismatch (expected : Expected) (found : Kind)
  | readOnly
  | tooDeep (limit : Nat)
  deriving DecidableEq

namespace DocumentError

def message : DocumentError → String
  | .invalidInput detail => s!"Invalid JSON input: {detail}"
  | .invalidPath path position message =>
    s!"Invalid query syntax in '{path}' at offset {position}: {message}"
  | .notFound path => s!"No match for '{path}'"
  | .typeMismatch expected found =>
    s!"Type mismatch: expected {expected.name}, found {found.name}"
  | .readOnly => "Document is a read-only view"
  | .tooDeep limit => s!"Recursion depth limit of {limit} exceeded"

def ofQueryError : QueryError → DocumentError
  | .malformed path position message => .invalidPath path position message
  | .tooDeep limit => .tooDeep limit
  | .undecodable detail => .invalidInput detail

def mismatch (expected : Expected) (found : Json) : DocumentError :=
  .typeMismatch expected found.kind

def notDirect (path : String) : DocumentError :=
  .invalidPath path 0 "mutations accept only field names and array indices"

def rootDeleted (path : String) : DocumentError :=
  .invalidPath path 0 "the document root cannot be deleted"

end DocumentError

end JsonQuery
