import JsonQuery.Document.Edit
import JsonQuery.Document.Result
import JsonQuery.Source.Span

/-!
Documents. A document that comes from text stays as it is written until something needs the whole
of it: a query that may lead to several places, or a mutation. From then on it is a tree.

Operations answer beside the document as it is afterwards, so that one that fails still says what
became of the document.
-/

namespace JsonQuery

inductive Content where
  | raw (source : List UInt8)
  | tree (value : Json)

structure Document where
  content : Content
  readOnly : Bool
  /-- Whether the text has been decoded. It is kept beside the content. -/
  isMaterialized : Bool

namespace Document

def parse (source : List UInt8) : Except DocumentError Document :=
  match Json.validate source with
  | .ok () => .ok ⟨.raw source, false, false⟩
  | .error defect => .error (.invalidInput defect.message)

def ofValue (value : Json) : Document :=
  ⟨.tree value, false, true⟩

def viewOf (value : Json) : Document :=
  ⟨.tree value, true, true⟩

/-! ## Output -/

def bytes (document : Document) : List UInt8 :=
  match document.content with
  | .raw source => source
  | .tree value => Utf8.encode value.write

def text (document : Document) : Except DocumentError String :=
  match Utf8.decode? document.bytes with
  | some text => .ok (String.ofList text)
  | none => .error (.invalidInput Json.Defect.invalidEncoding.message)

def value (document : Document) : Except DocumentError Json :=
  match document.content with
  | .raw source => (Json.decode source).mapError fun defect => .invalidInput defect.message
  | .tree value => .ok value

/-! ## Queries -/

def materialize (document : Document) : Shared (Except DocumentError (Json × Document)) := do
  match document.content with
  | .tree value => return .ok (value, document)
  | .raw source =>
    match Json.decode source with
    | .ok value =>
      Session.give [.materializing source.length]
      return .ok (value, { document with content := .tree value, isMaterialized := true })
    | .error defect => return .error (.invalidInput defect.message)

def decoded (document : Document) : Shared (Except DocumentError Document) := do
  if document.isMaterialized then return .ok document
  else return (← document.materialize).map Prod.snd

def select (document : Document) (query : Query) : Shared (Except QueryError (List Json)) := do
  let context ← Session.context
  match document.content with
  | .raw source =>
    match Span.root? source with
    | some root => Session.answer (query.select context root)
    | none => return .ok []
  | .tree value => Session.answer (query.select context (Place.root value))

/-- Runs a query. A direct one leaves the text as it is; any other decodes it first. -/
def run (document : Document) (path : String) (query : Query) :
    Shared (QueryResult × Document) := do
  if query.isDirect then
    let found ← document.select query
    return (⟨path, found.mapError DocumentError.ofQueryError⟩, document)
  else
    match ← document.decoded with
    | .error error => return (⟨path, .error error⟩, document)
    | .ok document =>
      let found ← document.select query
      return (⟨path, found.mapError DocumentError.ofQueryError⟩, document)

def query (document : Document) (path : String) : Shared (QueryResult × Document) := do
  match ← Session.query path with
  | .ok query => document.run path query
  | .error error => return (⟨path, .error (.ofQueryError error)⟩, document)

def queryParsed (document : Document) (query : Query) : Shared (QueryResult × Document) :=
  document.run "" query

def view (document : Document) (path : String) :
    Shared (Except DocumentError Document × Document) := do
  let (result, document) ← document.query path
  return (result.first.map viewOf, document)

/-! ## Mutations -/

def directSegments (path : String) : Shared (Except DocumentError (List Segment)) := do
  match ← Session.query path with
  | .error error => return .error (.ofQueryError error)
  | .ok query =>
    match query.directSegments? with
    | some segments => return .ok segments
    | none => return .error (.notDirect path)

/-- Changes the tree of a document in a way that may fail. The document is decoded as soon as it
is known to be writable and the path to be direct, and keeps what the change leaves behind. -/
def edit (document : Document) (path : String)
    (change : List Segment → Json → Except DocumentError Unit × Json) :
    Shared (Except DocumentError Unit × Document) := do
  if document.readOnly then return (.error .readOnly, document)
  else
    match ← directSegments path with
    | .error error => return (.error error, document)
    | .ok segments =>
      match ← document.materialize with
      | .error error => return (.error error, document)
      | .ok (value, document) =>
        let (outcome, changed) := change segments value
        return (outcome, { document with content := .tree changed })

def set (document : Document) (path : String) (value : Json) :
    Shared (Except DocumentError Unit × Document) :=
  document.edit path (Json.set value path)

def delete (document : Document) (path : String) :
    Shared (Except DocumentError Unit × Document) :=
  document.edit path (Json.delete path)

end Document

def QueryResult.toDocument (result : QueryResult) : Except DocumentError Document :=
  result.first.map Document.viewOf

end JsonQuery
