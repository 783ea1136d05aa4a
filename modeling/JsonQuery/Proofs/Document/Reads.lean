import JsonQuery.Proofs.Document.Preservation

/-!
Reading documents over accepted texts. An accepted text nests less deeply than a descent may go
under the usual limits, and so does everything that is selected from it. So nothing goes wrong with
reading but for paths that are refused.
-/

namespace JsonQuery

/-- Whether a command leaves all values as they are. -/
def Command.isRead : Command → Bool
  | .document _ (.operation (.set _ _)) | .document _ (.operation (.delete _)) => false
  | _ => true

/-- An error that refuses the text of a path. -/
def DocumentError.IsSyntax (error : DocumentError) : Prop :=
  ∃ path position message, error = .invalidPath path position message

/-- A reply in which nothing has gone wrong but for the text of a path. A view also needs
something to be found. -/
def Reply.FailsOnSyntaxOnly : Reply → Prop
  | .answer (.result result) => ∀ error ∈ result.error?, error.IsSyntax
  | .answer (.view view) => ∀ error, view = .error error →
      error.IsSyntax ∨ ∃ path, error = .notFound path
  | .answer (.value outcome) => ∃ value, outcome = .ok value
  | .text outcome => ∃ text, outcome = .ok text
  | _ => True

theorem Command.keeps_of_isRead {holds : Json → Prop} {command : Command}
    (isRead : command.isRead = true) : command.Keeps holds := by
  refine command.keeps_of ?_ ?_
  · rintro position path value rfl
    cases isRead
  · rintro position path rfl
    cases isRead

def QueryError.IsMalformed (error : QueryError) : Prop :=
  ∃ path position message, error = .malformed path position message

/-- What is read from texts nests so little that a descent always comes to an end. -/
theorem invariant_nestsWithin {context : Context} (deep : Json.nestingLimit ≤ context.maxDepth) :
    Invariant (Json.NestsWithin Json.nestingLimit) QueryError.IsMalformed context where
  inherited := Json.inherited_nestsWithin _
  malformed path position message := ⟨path, position, message, rfl⟩
  deep _ within tooDeep := absurd (within.mono deep) tooDeep

theorem QueryResult.Has.isSyntax {holds : Json → Prop} {result : QueryResult}
    (has : result.Has holds QueryError.IsMalformed) {error : DocumentError}
    (failed : result.outcome = .error error) : error.IsSyntax := by
  rcases has with ⟨outcome, selects, same⟩
  rw [same] at failed
  cases outcome with
  | ok values => cases failed
  | error cause =>
      cases failed
      rcases selects with ⟨path, position, message, rfl⟩
      exact ⟨path, position, message, rfl⟩

theorem QueryResult.Has.view_isSyntax {holds : Json → Prop} {result : QueryResult}
    (has : result.Has holds QueryError.IsMalformed) : ∀ error, result.toDocument = .error error →
      error.IsSyntax ∨ ∃ path, error = .notFound path := by
  intro error failed
  rw [QueryResult.toDocument, first] at failed
  cases outcome : result.outcome with
  | error cause =>
      rw [outcome] at failed
      cases failed
      exact .inl (has.isSyntax outcome)
  | ok values =>
      rw [outcome] at failed
      cases values with
      | nil =>
          cases failed
          exact .inr ⟨_, rfl⟩
      | cons value values => cases failed

theorem Reply.Has.failsOnSyntaxOnly {holds : Json → Prop} {reply : Reply}
    (has : reply.Has holds QueryError.IsMalformed) : reply.FailsOnSyntaxOnly := by
  cases reply with
  | answer answer =>
      cases answer with
      | result result =>
          intro error carried
          rw [QueryResult.error?] at carried
          split at carried
          next => cases carried
          next failed =>
            cases carried
            exact has.isSyntax failed
      | view view =>
          rcases has with ⟨result, resultHas, rfl⟩
          exact resultHas.view_isSyntax
      | value outcome =>
          rcases has with ⟨value, _, same⟩
          exact ⟨value, same⟩
      | outcome outcome => trivial
  | text outcome => exact has
  | bytes | flag => trivial

/-- Documents over accepted texts that are only read, in whatever order, with their results queried
in turn and viewed: with the usual limit on descents or a larger one no query fails but for a path
that is refused, and the value and the text of each document are there whenever they are asked
for. -/
theorem reads_fail_on_syntax_only {documents : List Document} {session : Session}
    (parsed : ∀ document ∈ documents, ∃ source, Document.parse source = .ok document)
    (faithful : session.settings.cache.Faithful) (deep : 127 ≤ session.settings.limits.maxDepth)
    {events : List Event} (reads : ∀ command ∈ Event.commands events, command.isRead = true) :
    ∀ reply, some reply ∈ (((Workspace.mk documents []).run events).run session).1.1 →
      reply.FailsOnSyntaxOnly := by
  have has : Workspace.Has (Json.NestsWithin Json.nestingLimit) QueryError.IsMalformed
      ⟨documents, []⟩ :=
    Workspace.has_parsed Json.nestsWithin_of_decode parsed
  have ready : session.Ready session.settings.context := ⟨rfl, faithful⟩
  have invariant : Invariant (Json.NestsWithin Json.nestingLimit) QueryError.IsMalformed
      session.settings.context := invariant_nestsWithin deep
  have kept := invariant.runAll events has ready fun command there =>
    Command.keeps_of_isRead (reads command there)
  exact fun reply there => (kept.replies reply there).failsOnSyntaxOnly

/-- A descent, a descent from what it has found, and a path that is refused. -/
theorem reads_fail_on_syntax_only_descents :
    ∃ document,
      Document.parse (Utf8.encode "\x7b\"a\":[\x7b\"a\":1\x7d]\x7d".toList) = .ok document ∧
      127 ≤ (Session.start .standard).settings.limits.maxDepth ∧
      ∀ reply, some reply ∈ (((Workspace.mk [document] []).run
          [.command (.document 0 (.operation (.query "//a"))), .command (.query 0 "//a"),
            .command (.document 0 (.operation (.query "["))), .command (.document 0 .text)]).run
              (Session.start .standard)).1.1 → reply.FailsOnSyntaxOnly := by
  have decoded : Json.decode (Utf8.encode "\x7b\"a\":[\x7b\"a\":1\x7d]\x7d".toList) =
      .ok (.object [("a", .array [.object [("a", .number (.integer 1))]])]) := by
    cbv
  have parsed : Document.parse (Utf8.encode "\x7b\"a\":[\x7b\"a\":1\x7d]\x7d".toList) =
      .ok ⟨.raw (Utf8.encode "\x7b\"a\":[\x7b\"a\":1\x7d]\x7d".toList), false, false⟩ :=
    Document.parse_of_ok decoded
  have deep : 127 ≤ (Session.start .standard).settings.limits.maxDepth := by decide
  refine ⟨_, parsed, deep, ?_⟩
  refine reads_fail_on_syntax_only (List.forall_mem_singleton.mpr ⟨_, parsed⟩)
    (QueryCache.faithful_empty _) deep ?_
  decide

end JsonQuery
