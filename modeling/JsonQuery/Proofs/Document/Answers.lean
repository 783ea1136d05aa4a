import JsonQuery.Document.Basic

/-!
What the operations of a document answer, apart from the notices that they give. An answer depends
on the document and the settings, and of the settings an operation changes only the cache.
-/

namespace JsonQuery

namespace Session

theorem run_bind {α β : Type} (first : Shared α) (next : α → Shared β) (session : Session) :
    (first >>= next).run session =
      (next (first.run session).1).run (first.run session).2 := rfl

theorem run_pure {α : Type} (answer : α) (session : Session) :
    (pure answer : Shared α).run session = (answer, session) := rfl

theorem run_context (session : Session) :
    Session.context.run session = (session.settings.context, session) := rfl

theorem answer_answer {α : Type} (traced : Traced α) (session : Session) :
    ((Session.answer traced).run session).1 = traced.outcome ∧
      ((Session.answer traced).run session).2.settings = session.settings :=
  ⟨rfl, rfl⟩

end Session

namespace Settings

def query (settings : Settings) (path : String) : Except QueryError Query :=
  (settings.cache.get path).1

def looked (settings : Settings) (path : String) : Settings :=
  settings.withCache (settings.cache.get path).2.1

def way (settings : Settings) (path : String) : Except DocumentError (List Segment) :=
  match settings.query path with
  | .error error => .error (.ofQueryError error)
  | .ok query =>
    match query.directSegments? with
    | some segments => .ok segments
    | none => .error (.notDirect path)

end Settings

theorem Session.query_answer (path : String) (session : Session) :
    ((Session.query path).run session).1 = session.settings.query path ∧
      ((Session.query path).run session).2.settings = session.settings.looked path :=
  ⟨rfl, rfl⟩

namespace Document

def holdsTree (document : Document) : Bool :=
  match document.content with
  | .raw _ => false
  | .tree _ => true

/-- A document that is held as a tree. It is marked as decoded where its text has been decoded for
that. -/
def withTree (document : Document) (value : Json) : Document :=
  { document with
    content := .tree value
    isMaterialized := document.isMaterialized || !document.holdsTree }

def selection (document : Document) (query : Query) (context : Context) :
    Except QueryError (List Json) :=
  match document.content with
  | .raw source =>
    match Span.root? source with
    | some root => (query.select context root).outcome
    | none => .ok []
  | .tree value => (query.select context (Place.root value)).outcome

/-- The form of a document in which any query can be run. -/
def decodedForm (document : Document) : Except DocumentError Document :=
  if document.isMaterialized then .ok document else document.value.map document.withTree

def queryAnswer (document : Document) (path : String) (query : Query) (context : Context) :
    QueryResult × Document :=
  if query.isDirect then
    (⟨path, (document.selection query context).mapError .ofQueryError⟩, document)
  else
    match document.decodedForm with
    | .error error => (⟨path, .error error⟩, document)
    | .ok form => (⟨path, (form.selection query context).mapError .ofQueryError⟩, form)

def editAnswer (document : Document) (way : Except DocumentError (List Segment))
    (change : List Segment → Json → Except DocumentError Unit × Json) :
    Except DocumentError Unit × Document :=
  if document.readOnly then (.error .readOnly, document)
  else
    match way with
    | .error error => (.error error, document)
    | .ok segments =>
      match document.value with
      | .error error => (.error error, document)
      | .ok value => ((change segments value).1, document.withTree (change segments value).2)

variable (document : Document) (path : String) (session : Session)

theorem materialize_answer :
    (document.materialize.run session).1 =
        (document.value.map fun value => (value, document.withTree value)) ∧
      (document.materialize.run session).2.settings = session.settings := by
  rcases document with ⟨content, readOnly, isMaterialized⟩
  cases content with
  | tree value => cases isMaterialized <;> exact ⟨rfl, rfl⟩
  | raw source =>
      simp only [materialize, value]
      cases Json.decode source <;> cases isMaterialized <;> exact ⟨rfl, rfl⟩

theorem decoded_answer :
    (document.decoded.run session).1 = document.decodedForm ∧
      (document.decoded.run session).2.settings = session.settings := by
  have materialized := document.materialize_answer session
  unfold decoded decodedForm
  split
  · exact ⟨rfl, rfl⟩
  · simp only [Session.run_bind, Session.run_pure, materialized]
    cases document.value <;> exact ⟨rfl, trivial⟩

theorem select_answer (query : Query) :
    ((document.select query).run session).1 =
        document.selection query session.settings.context ∧
      ((document.select query).run session).2.settings = session.settings := by
  rw [select, selection, Session.run_bind, Session.run_context]
  cases document.content with
  | tree value => exact Session.answer_answer _ session
  | raw source =>
      dsimp only
      cases Span.root? source with
      | none => exact ⟨rfl, rfl⟩
      | some root => exact Session.answer_answer _ session

theorem run_answer (query : Query) :
    ((document.run path query).run session).1 =
        document.queryAnswer path query session.settings.context ∧
      ((document.run path query).run session).2.settings = session.settings := by
  unfold run queryAnswer
  split
  · have selected := document.select_answer session query
    simp only [Session.run_bind, Session.run_pure, selected, and_self]
  · have decoded := document.decoded_answer session
    simp only [Session.run_bind, decoded]
    cases document.decodedForm with
    | error error => exact ⟨rfl, decoded.2⟩
    | ok form =>
        have selected := form.select_answer (document.decoded.run session).2 query
        rw [decoded.2] at selected
        simp only [Session.run_bind, Session.run_pure, selected, and_self]

theorem query_answer :
    ((document.query path).run session).1 =
        (match session.settings.query path with
          | .ok query => document.queryAnswer path query session.settings.context
          | .error error => (⟨path, .error (.ofQueryError error)⟩, document)) ∧
      ((document.query path).run session).2.settings = session.settings.looked path := by
  have looked := Session.query_answer path session
  unfold Document.query
  simp only [Session.run_bind, looked]
  cases session.settings.query path with
  | error error => exact ⟨rfl, looked.2⟩
  | ok query =>
      have answered := document.run_answer path ((Session.query path).run session).2 query
      rw [looked.2] at answered
      exact answered

theorem directSegments_answer :
    ((directSegments path).run session).1 = session.settings.way path ∧
      ((directSegments path).run session).2.settings = session.settings.looked path := by
  have looked := Session.query_answer path session
  unfold directSegments Settings.way
  simp only [Session.run_bind, looked]
  cases session.settings.query path with
  | error error => exact ⟨rfl, looked.2⟩
  | ok query =>
      dsimp only
      cases query.directSegments? <;> exact ⟨rfl, looked.2⟩

theorem edit_answer (change : List Segment → Json → Except DocumentError Unit × Json) :
    ((document.edit path change).run session).1 =
        document.editAnswer (session.settings.way path) change ∧
      ((document.edit path change).run session).2.settings =
        if document.readOnly then session.settings else session.settings.looked path := by
  unfold edit editAnswer
  split
  · exact ⟨rfl, rfl⟩
  · have spelled := directSegments_answer path session
    simp only [Session.run_bind, spelled]
    cases session.settings.way path with
    | error error => exact ⟨rfl, spelled.2⟩
    | ok segments =>
        have decoded := document.materialize_answer ((directSegments path).run session).2
        simp only [Session.run_bind, decoded]
        cases document.value with
        | error error => exact ⟨rfl, decoded.2.trans spelled.2⟩
        | ok value => exact ⟨rfl, decoded.2.trans spelled.2⟩

end Document

end JsonQuery
