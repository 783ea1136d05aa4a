import JsonQuery.Proofs.Document.Caching
import JsonQuery.Proofs.Document.Materialization
import JsonQuery.Proofs.Selection.Answering

/-!
The value that a document holds, be it as a tree or as a text that has not been decoded. What a
document answers depends on its value alone, and of all operations only mutations change it.
-/

namespace JsonQuery

def Json.find (value : Json) (path : String) (context : Context) :
    Except QueryError (List Json) := do
  value.selection (← Query.parse path) context

namespace Document

/-- A document over a tree, or over a text that decodes to it. -/
def Holds (document : Document) (value : Json) : Prop :=
  document.Represents ⟨.tree value, document.readOnly, true⟩

theorem holds_viewOf (value : Json) : (viewOf value).Holds value := .refl _

theorem holds_ofValue (value : Json) : (ofValue value).Holds value := .refl _

theorem holds_parse {source : List UInt8} {document : Document}
    (parsed : Document.parse source = .ok document) :
    ∃ value, Json.decode source = .ok value ∧ document.Holds value := by
  rcases parse_eq_ok parsed with ⟨rfl, value, decoded⟩
  exact ⟨value, decoded, rfl, .inr ⟨source, value, rfl, rfl, rfl, rfl, decoded⟩⟩

namespace Holds

variable {document : Document} {held : Json}

theorem value (holds : document.Holds held) : document.value = .ok held :=
  Represents.value holds

theorem bytes (holds : document.Holds held) : ∃ text, document.bytes = Utf8.encode text := by
  rcases holds.content with same | ⟨source, value, isRaw, _, _, _, decoded⟩
  · rw [same]
    exact ⟨held.write, rfl⟩
  · rcases Json.decode_eq_ok_iff.mp decoded with ⟨text, _, rfl, _, _⟩
    rw [Document.bytes, isRaw]
    exact ⟨text, rfl⟩

theorem withTree (holds : document.Holds held) (changed : Json) :
    (document.withTree changed).Holds changed := by
  have same := Represents.withTree holds changed
  rw [same]
  exact .refl _

theorem queryAnswer (holds : document.Holds held) (path : String) (query : Query)
    (context : Context) :
    (document.queryAnswer path query context).1 =
        ⟨path, (held.selection query context).mapError .ofQueryError⟩ ∧
      (document.queryAnswer path query context).2.Holds held := by
  have tree : (Document.mk (.tree held) document.readOnly true).queryAnswer path query context =
      (⟨path, (held.selection query context).mapError .ofQueryError⟩,
        ⟨.tree held, document.readOnly, true⟩) := by
    unfold Document.queryAnswer
    split <;> rfl
  have same := Represents.queryAnswer holds path query context
  rw [tree] at same
  refine ⟨same.1, ?_⟩
  have readOnly : (document.queryAnswer path query context).2.readOnly = document.readOnly :=
    same.2.readOnly
  rw [Holds, readOnly]
  exact same.2

theorem run (holds : document.Holds held) (path : String) (query : Query) (session : Session) :
    ((document.run path query).run session).1.1 =
        ⟨path, (held.selection query session.settings.context).mapError .ofQueryError⟩ ∧
      ((document.run path query).run session).1.2.Holds held := by
  rw [(document.run_answer path session query).1]
  exact holds.queryAnswer path query session.settings.context

theorem query (holds : document.Holds held) (path : String) {session : Session}
    (faithful : session.settings.cache.Faithful) :
    ((document.query path).run session).1.1 =
        ⟨path, (held.find path session.settings.context).mapError .ofQueryError⟩ ∧
      ((document.query path).run session).1.2.Holds held := by
  rw [(document.query_answer path session).1, Settings.query_eq_parse faithful, Json.find]
  cases Query.parse path with
  | error error => exact ⟨rfl, holds⟩
  | ok query => exact holds.queryAnswer path query session.settings.context

theorem edit (holds : document.Holds held) (path : String) (session : Session)
    (change : List Segment → Json → Except DocumentError Unit × Json) :
    ((document.edit path change).run session).1.2.Holds held ∨
      ∃ segments, session.settings.way path = .ok segments ∧
        ((document.edit path change).run session).1.2.Holds (change segments held).2 := by
  rw [(document.edit_answer path session change).1]
  unfold editAnswer
  split
  next => exact .inl holds
  next =>
    cases session.settings.way path with
    | error error => exact .inl holds
    | ok segments =>
        rw [holds.value]
        exact .inr ⟨segments, rfl, holds.withTree _⟩

end Holds

end Document

namespace QueryResult

def found (result : QueryResult) (query : Except QueryError Query) (context : Context) :
    Except DocumentError (List Json) := do
  let values ← result.outcome
  let found := do (selectAll (← query) context values).outcome
  found.mapError DocumentError.ofQueryError

theorem query_answer (result : QueryResult) (path : String) {session : Session}
    (faithful : session.settings.cache.Faithful) :
    ((result.query path).run session).1 =
      ⟨path, result.found (Query.parse path) session.settings.context⟩ := by
  rw [← Settings.query_eq_parse faithful]
  have looked := Session.query_answer path session
  unfold QueryResult.query QueryResult.found
  cases result.outcome with
  | error error => rfl
  | ok values =>
      simp only [Session.run_bind, looked]
      cases session.settings.query path with
      | error error => rfl
      | ok query =>
          have answered (later : Session) : (StateT.run (do
              let found ← Session.answer (selectAll query (← Session.context) values)
              return QueryResult.mk path (found.mapError DocumentError.ofQueryError)) later).1 =
                ⟨path, (selectAll query later.settings.context values).outcome.mapError
                  DocumentError.ofQueryError⟩ := rfl
          have same : ((Session.query path).run session).2.settings.context =
              session.settings.context := by
            rw [looked.2]
            rfl
          rw [answered, same, ok_bind, ok_bind]

/-- A failed result is not queried, so nothing is looked up for it. -/
theorem query_settings (result : QueryResult) (path : String) (session : Session) :
    ((result.query path).run session).2.settings = session.settings ∨
      ((result.query path).run session).2.settings = session.settings.looked path := by
  have looked := (Session.query_answer path session).2
  unfold QueryResult.query
  cases result.outcome with
  | error error => exact .inl rfl
  | ok values =>
      rw [Session.run_bind]
      cases ((Session.query path).run session).1 with
      | error error => exact .inr looked
      | ok query => exact .inr looked

end QueryResult

end JsonQuery
