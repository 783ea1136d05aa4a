import JsonQuery.Proofs.Document.Holding
import JsonQuery.Proofs.Document.Workspace
import JsonQuery.Proofs.Selection.Inheritance

/-!
Properties of all values at hand. A property that values pass on to their parts is kept by every
command that reads, and by a mutation that keeps it of the tree. So it holds of the documents, the
results and the replies of a whole run.
-/

namespace JsonQuery

/-- A property of values that reading keeps, and the errors that queries may meet where all values
have it. -/
structure Invariant (holds : Json → Prop) (errors : QueryError → Prop) (context : Context) :
    Prop where
  inherited : Json.Inherited holds
  malformed (path : String) (position : Nat) (message : String) :
    errors (.malformed path position message)
  deep (value : Json) : holds value → ¬value.NestsWithin context.maxDepth →
    errors (.tooDeep context.maxDepth)

variable (holds : Json → Prop) (errors : QueryError → Prop) (context : Context)

/-! ## What is at hand -/

def Document.Has (document : Document) : Prop :=
  ∃ value, document.Holds value ∧ holds value

/-- The values found have the property, or the error is one that may be met. -/
abbrev Selects (outcome : Except QueryError (List Json)) : Prop :=
  Ends (fun values => ∀ value ∈ values, holds value) errors outcome

def QueryResult.Has (result : QueryResult) : Prop :=
  ∃ outcome, Selects holds errors outcome ∧ result.outcome = outcome.mapError .ofQueryError

def Reply.Has : Reply → Prop
  | .answer (.result result) => result.Has holds errors
  | .answer (.view view) => ∃ result : QueryResult, result.Has holds errors ∧
      view = result.toDocument
  | .answer (.value outcome) => ∃ value, holds value ∧ outcome = .ok value
  | .text outcome => ∃ text, outcome = .ok text
  | _ => True

structure Workspace.Has (workspace : Workspace) : Prop where
  documents : ∀ document ∈ workspace.documents, document.Has holds
  results : ∀ result ∈ workspace.results, result.Has holds errors

structure Session.Ready (session : Session) : Prop where
  context : session.settings.context = context
  faithful : session.settings.cache.Faithful

/-- Whether a mutation keeps the property, wherever its path leads. -/
def Request.Keeps : Request → Prop
  | .operation (.set path value) => ∀ query segments, Query.parse path = .ok query →
      query.directSegments? = some segments → ∀ tree, holds tree →
        holds (Json.set value path segments tree).2
  | .operation (.delete path) => ∀ query segments, Query.parse path = .ok query →
      query.directSegments? = some segments → ∀ tree, holds tree →
        holds (Json.delete path segments tree).2
  | _ => True

def Command.Keeps : Command → Prop
  | .document _ request => request.Keeps holds
  | .query _ _ | .view _ => True

variable {holds errors context}

/-- Only sets and deletions change what is at hand. -/
theorem Command.keeps_of {command : Command}
    (sets : ∀ position path value, command = .document position (.operation (.set path value)) →
      ∀ query segments, Query.parse path = .ok query → query.directSegments? = some segments →
        ∀ tree, holds tree → holds (Json.set value path segments tree).2)
    (deletions : ∀ position path, command = .document position (.operation (.delete path)) →
      ∀ segments tree, holds tree → holds (Json.delete path segments tree).2) :
    command.Keeps holds := by
  cases command with
  | document position request =>
      cases request with
      | operation operation =>
          cases operation with
          | set path value => exact sets position path value rfl
          | delete path => exact fun _ segments _ _ => deletions position path rfl segments
          | query | queryParsed | view | value => trivial
      | bytes | text | isMaterialized | isReadOnly => trivial
  | query position path => trivial
  | view position => trivial

namespace Session.Ready

variable {session later : Session}

theorem of_settings (ready : session.Ready context) (same : later.settings = session.settings) :
    later.Ready context :=
  ⟨same ▸ ready.context, same ▸ ready.faithful⟩

theorem of_looked (ready : session.Ready context) {path : String}
    (looked : later.settings = session.settings.looked path) : later.Ready context :=
  ⟨looked ▸ ready.context, looked ▸ Settings.faithful_looked ready.faithful path⟩

end Session.Ready

/-! ## Queries -/

namespace Invariant

variable (invariant : Invariant holds errors context)

include invariant

theorem ends_parse (path : String) : Ends (fun _ => True) errors (Query.parse path) := by
  unfold Query.parse
  cases Grammar.readText Grammar.readQuery path with
  | ok query => trivial
  | error refusal => exact invariant.malformed _ _ _

theorem selects {value : Json} (holdsHere : holds value) (query : Query) :
    Selects holds errors (value.selection query context) :=
  Json.ends_selection invariant.inherited invariant.deep holdsHere query

theorem selects_find {value : Json} (holdsHere : holds value) (path : String) :
    Selects holds errors (value.find path context) :=
  (invariant.ends_parse path).bind fun query _ => invariant.selects holdsHere query

theorem selects_selectAll {values : List Json} (each : ∀ value ∈ values, holds value)
    (query : Query) :
    Selects holds errors (QueryResult.selectAll query context values).outcome := by
  induction values with
  | nil => exact List.forall_mem_nil _
  | cons value values induction =>
      rw [List.forall_mem_cons] at each
      rw [QueryResult.selectAll, Traced.outcome_bind]
      refine Ends.bind (invariant.selects each.1 query) fun found foundHolds => ?_
      rw [Traced.outcome_bind]
      refine (induction each.2).bind fun others othersHold => ?_
      exact List.forall_mem_append.mpr ⟨foundHolds, othersHold⟩

end Invariant

/-! ## Operations -/

/-- What a command leaves: a reply and a document of the kind, and a session to go on with. -/
structure Document.Preserves (holds : Json → Prop) (errors : QueryError → Prop)
    (context : Context) (result : (Reply × Document) × Session) : Prop where
  reply : result.1.1.Has holds errors
  document : result.1.2.Has holds
  ready : result.2.Ready context

theorem QueryResult.Has.toDocument {result : QueryResult} (has : result.Has holds errors)
    {view : Document} (isView : result.toDocument = .ok view) : view.Has holds := by
  rcases has with ⟨outcome, selects, same⟩
  rw [QueryResult.toDocument, QueryResult.first, same] at isView
  cases outcome with
  | error error => cases isView
  | ok values =>
      cases values with
      | nil => cases isView
      | cons value values =>
          cases isView
          exact ⟨value, Document.holds_viewOf value, selects value List.mem_cons_self⟩

namespace Document.Has

variable {document : Document} {session : Session}

theorem text (has : document.Has holds) : ∃ text, document.text = .ok text := by
  rcases has with ⟨value, isHeld, _⟩
  rcases isHeld.bytes with ⟨text, isText⟩
  rw [Document.text, isText, Utf8.decode?_encode]
  exact ⟨_, rfl⟩

theorem ofEdit (has : document.Has holds) (ready : session.Ready context) {path : String}
    {change : List Segment → Json → Except DocumentError Unit × Json}
    (keeps : ∀ query segments, Query.parse path = .ok query →
      query.directSegments? = some segments → ∀ tree, holds tree →
        holds (change segments tree).2) :
    ((document.edit path change).run session).1.2.Has holds ∧
      ((document.edit path change).run session).2.Ready context := by
  have settings := (document.edit_answer path session change).2
  rcases has with ⟨value, isHeld, holdsHere⟩
  constructor
  · rcases isHeld.edit path session change with same | ⟨segments, way, changed⟩
    · exact ⟨value, same, holdsHere⟩
    · rcases Settings.way_eq_ok ready.faithful way with ⟨query, parsed, isDirect⟩
      exact ⟨_, changed, keeps query segments parsed isDirect value holdsHere⟩
  · split at settings
    next => exact ready.of_settings settings
    next => exact ready.of_looked settings

end Document.Has

namespace Invariant

variable (invariant : Invariant holds errors context) {session : Session}
  (ready : session.Ready context)

include invariant ready

theorem run {document : Document} (has : document.Has holds) (path : String) (query : Query) :
    ((document.run path query).run session).1.1.Has holds errors ∧
      ((document.run path query).run session).1.2.Has holds ∧
      ((document.run path query).run session).2.Ready context := by
  rcases has with ⟨value, isHeld, holdsHere⟩
  have answered := isHeld.run path query session
  rw [ready.context] at answered
  refine ⟨?_, ⟨value, answered.2, holdsHere⟩,
    ready.of_settings (document.run_answer path session query).2⟩
  rw [answered.1]
  exact ⟨_, invariant.selects holdsHere query, rfl⟩

theorem query {document : Document} (has : document.Has holds) (path : String) :
    ((document.query path).run session).1.1.Has holds errors ∧
      ((document.query path).run session).1.2.Has holds ∧
      ((document.query path).run session).2.Ready context := by
  rcases has with ⟨value, isHeld, holdsHere⟩
  have answered := isHeld.query path ready.faithful
  rw [ready.context] at answered
  refine ⟨?_, ⟨value, answered.2, holdsHere⟩,
    ready.of_looked (document.query_answer path session).2⟩
  rw [answered.1]
  exact ⟨_, invariant.selects_find holdsHere path, rfl⟩

/-- A query on a result goes on from values of the same kind. -/
theorem further {result : QueryResult} (has : result.Has holds errors) (path : String) :
    ((result.query path).run session).1.Has holds errors ∧
      ((result.query path).run session).2.Ready context := by
  have answered := result.query_answer path ready.faithful
  rw [ready.context] at answered
  constructor
  · rcases has with ⟨outcome, selects, same⟩
    refine ⟨outcome >>= fun values => do
      (QueryResult.selectAll (← Query.parse path) context values).outcome, ?_, ?_⟩
    · refine selects.bind fun values each => ?_
      exact (invariant.ends_parse path).bind fun query _ => invariant.selects_selectAll each query
    · rw [answered, QueryResult.found, same]
      cases outcome <;> rfl
  · rcases result.query_settings path session with same | looked
    · exact ready.of_settings same
    · exact ready.of_looked looked

theorem respond {document : Document} (has : document.Has holds) {request : Request}
    (keeps : request.Keeps holds) :
    Document.Preserves holds errors context ((document.respond request).run session) := by
  cases request with
  | operation operation =>
      cases operation with
      | query path =>
          have answered := invariant.query ready has path
          exact ⟨answered.1, answered.2.1, answered.2.2⟩
      | queryParsed query =>
          have answered := invariant.run ready has "" query
          exact ⟨answered.1, answered.2.1, answered.2.2⟩
      | set path value =>
          have edited := has.ofEdit ready keeps
          exact ⟨trivial, edited.1, edited.2⟩
      | delete path =>
          have edited := has.ofEdit ready keeps
          exact ⟨trivial, edited.1, edited.2⟩
      | view path =>
          have answered := invariant.query ready has path
          exact ⟨⟨_, answered.1, rfl⟩, answered.2.1, answered.2.2⟩
      | value =>
          rcases has with ⟨value, isHeld, holdsHere⟩
          exact ⟨⟨value, holdsHere, isHeld.value⟩, ⟨value, isHeld, holdsHere⟩, ready⟩
  | text => exact ⟨has.text, has, ready⟩
  | bytes | isMaterialized | isReadOnly => exact ⟨trivial, has, ready⟩

end Invariant

/-! ## Runs -/

namespace Workspace.Has

variable {workspace : Workspace}

theorem set (has : workspace.Has holds errors) {document : Document}
    (documentHas : document.Has holds) (position : Nat) :
    Workspace.Has holds errors
      { workspace with documents := workspace.documents.set position document } := by
  refine ⟨fun other there => ?_, has.results⟩
  rcases List.mem_or_eq_of_mem_set there with before | rfl
  · exact has.documents other before
  · exact documentHas

theorem keep (has : workspace.Has holds errors) {reply : Reply}
    (replyHas : reply.Has holds errors) : (workspace.keep reply).Has holds errors := by
  unfold Workspace.keep
  split
  next result =>
    exact ⟨has.documents,
      List.forall_mem_append.mpr ⟨has.results, List.forall_mem_singleton.mpr replyHas⟩⟩
  next view =>
    rcases replyHas with ⟨result, resultHas, same⟩
    exact ⟨List.forall_mem_append.mpr ⟨has.documents,
      List.forall_mem_singleton.mpr (resultHas.toDocument same.symm)⟩, has.results⟩
  next => exact has

end Workspace.Has

/-- What a command or a run leaves: replies and documents of the kind, and a session to go on
with. -/
structure Workspace.Preserves (holds : Json → Prop) (errors : QueryError → Prop)
    (context : Context) (replies : List (Option Reply)) (workspace : Workspace)
    (session : Session) : Prop where
  replies : ∀ reply, some reply ∈ replies → reply.Has holds errors
  workspace : workspace.Has holds errors
  ready : session.Ready context

/-- Documents over accepted texts, to begin with. -/
theorem Workspace.has_parsed {documents : List Document}
    (ofDecode : ∀ {source : List UInt8} {value : Json}, Json.decode source = .ok value →
      holds value)
    (parsed : ∀ document ∈ documents, ∃ source, Document.parse source = .ok document) :
    Workspace.Has holds errors ⟨documents, []⟩ := by
  refine ⟨fun document there => ?_, List.forall_mem_nil _⟩
  rcases parsed document there with ⟨source, accepted⟩
  rcases Document.holds_parse accepted with ⟨value, decoded, isHeld⟩
  exact ⟨value, isHeld, ofDecode decoded⟩

theorem Workspace.Preserves.nothing {workspace : Workspace} {session : Session}
    (has : workspace.Has holds errors) (ready : session.Ready context) :
    Preserves holds errors context [none] workspace session :=
  ⟨fun _ there => (nomatch List.mem_singleton.mp there), has, ready⟩

theorem Workspace.Preserves.reply {workspace : Workspace} {reply : Reply} {session : Session}
    (has : workspace.Has holds errors) (replyHas : reply.Has holds errors)
    (ready : session.Ready context) :
    Preserves holds errors context [some reply] (workspace.keep reply) session := by
  refine ⟨fun other there => ?_, has.keep replyHas, ready⟩
  cases List.mem_singleton.mp there
  exact replyHas

theorem Session.Ready.useCache {session : Session} (ready : session.Ready context)
    (use : QueryCache.Use) : ((Session.useCache use).run session).2.Ready context := by
  cases use with
  | get path => exact ready.of_looked (Session.query_answer path session).2
  | clear => exact ⟨ready.context, QueryCache.faithful_empty _⟩

namespace Invariant

variable (invariant : Invariant holds errors context)

include invariant

/-- One command. -/
theorem perform {workspace : Workspace} {session : Session} (has : workspace.Has holds errors)
    (ready : session.Ready context) {command : Command} (keeps : command.Keeps holds) :
    Workspace.Preserves holds errors context [((workspace.perform command).run session).1.1]
      ((workspace.perform command).run session).1.2
      ((workspace.perform command).run session).2 := by
  cases command with
  | document position request =>
      rw [Workspace.perform]
      cases isDocument : workspace.documents[position]? with
      | none => exact .nothing has ready
      | some document =>
          have documentHas := has.documents document (List.mem_of_getElem? isDocument)
          have responded := invariant.respond ready documentHas keeps
          exact .reply (has.set responded.document position) responded.reply responded.ready
  | query position path =>
      rw [Workspace.perform]
      cases isResult : workspace.results[position]? with
      | none => exact .nothing has ready
      | some result =>
          have resultHas := has.results result (List.mem_of_getElem? isResult)
          have answered := invariant.further ready resultHas path
          exact .reply has answered.1 answered.2
  | view position =>
      rw [Workspace.perform]
      cases isResult : workspace.results[position]? with
      | none => exact .nothing has ready
      | some result =>
          have resultHas := has.results result (List.mem_of_getElem? isResult)
          exact .reply has ⟨result, resultHas, rfl⟩ ready

/-- A whole run, whatever others do to the cache in between. -/
theorem runAll (events : List Event) : ∀ {workspace : Workspace} {session : Session},
    workspace.Has holds errors → session.Ready context →
      (∀ command ∈ Event.commands events, command.Keeps holds) →
        Workspace.Preserves holds errors context ((workspace.run events).run session).1.1
          ((workspace.run events).run session).1.2 ((workspace.run events).run session).2 := by
  induction events with
  | nil =>
      intro workspace session has ready keeps
      exact ⟨nofun, has, ready⟩
  | cons event events induction =>
      intro workspace session has ready keeps
      cases event with
      | command command =>
          rcases List.forall_mem_cons.mp keeps with ⟨commandKeeps, othersKeep⟩
          have here := invariant.perform has ready commandKeeps
          have later := induction here.workspace here.ready othersKeep
          refine ⟨fun reply there => ?_, later.workspace, later.ready⟩
          rcases List.mem_cons.mp there with first | others
          · exact here.replies reply (List.mem_singleton.mpr first)
          · exact later.replies reply others
      | cacheUse use => exact induction has (ready.useCache use) keeps

end Invariant

end JsonQuery
