import JsonQuery.Proofs.Document.Caching
import JsonQuery.Proofs.Document.Refinement
import JsonQuery.Proofs.Selection.Quiet

/-!
When a document decodes its text. A document that comes from text is in one of two phases: it
holds the text as it was given, or a tree. `materialized_iff` says which requests take it from the
first phase to the second, that it never goes back, and that the text is decoded once.
-/

namespace JsonQuery

inductive Request where
  | operation (operation : Operation)
  | bytes
  | text
  | isMaterialized
  | isReadOnly

inductive Reply where
  | answer (answer : Answer)
  | bytes (bytes : List UInt8)
  | text (text : Except DocumentError String)
  | flag (value : Bool)

namespace Document

def respond (document : Document) : Request → Shared (Reply × Document)
  | .operation operation => do
    let (answer, document) ← document.perform operation
    return (.answer answer, document)
  | .bytes => return (.bytes document.bytes, document)
  | .text => return (.text document.text, document)
  | .isMaterialized => return (.flag document.isMaterialized, document)
  | .isReadOnly => return (.flag document.readOnly, document)

def respondAll (document : Document) : List Request → Shared (List Reply × Document)
  | [] => return ([], document)
  | request :: requests => do
    let (reply, document) ← document.respond request
    let (replies, document) ← document.respondAll requests
    return (reply :: replies, document)

end Document

def spellsQuery (isDirect : Bool) (path : String) : Bool :=
  match Query.parse path with
  | .ok query => query.isDirect == isDirect
  | .error _ => false

/-- Whether a request can be met only with the tree of the document: a query that may lead to
several places, or a mutation of a single place, be it there or not. -/
def Request.needsTree : Request → Bool
  | .operation (.query path) | .operation (.view path) => spellsQuery false path
  | .operation (.queryParsed query) => !query.isDirect
  | .operation (.set path _) | .operation (.delete path) => spellsQuery true path
  | _ => false

/-- How often a text has been decoded for good, by the notices given. -/
def Session.decodings (session : Session) : Nat :=
  session.notices.countP Notice.isMaterializing

namespace Session

theorem decodings_append (session : Session) {notices : List Notice}
    (quiet : ∀ notice ∈ notices, notice.isMaterializing = false) :
    decodings { session with notices := session.notices ++ notices } = session.decodings := by
  have none : notices.countP Notice.isMaterializing = 0 := by
    rw [List.countP_eq_zero]
    intro notice given
    rw [quiet notice given]
    nofun
  rw [decodings, decodings, List.countP_append, none, Nat.add_zero]

theorem answer_decodings {α : Type} {traced : Traced α} (quiet : traced.Quiet)
    (session : Session) :
    ((Session.answer traced).run session).2.decodings = session.decodings :=
  decodings_append session quiet

end Session

theorem QueryCache.quiet_get (cache : QueryCache) (path : String) :
    ∀ notice ∈ (cache.get path).2.2, notice.isMaterializing = false := by
  have added (query : Query) :
      ∀ notice ∈ (cache.add path query).2, notice.isMaterializing = false := by
    unfold QueryCache.add
    split
    · nofun
    · split <;> simp [Notice.isMaterializing]
  unfold QueryCache.get
  split
  · nofun
  · split
    · exact added _
    · nofun

theorem Session.query_decodings (path : String) (session : Session) :
    ((Session.query path).run session).2.decodings = session.decodings :=
  decodings_append { session with settings := session.settings.looked path }
    (session.settings.cache.quiet_get path)

namespace Document

/-- The two phases of a document that comes from text, and whether it is marked as decoded. -/
inductive Phase (source : List UInt8) : Bool → Document → Prop
  | undecoded : Phase source false ⟨.raw source, false, false⟩
  | decoded (value : Json) : Phase source true ⟨.tree value, false, true⟩

structure Effect {α : Type} (source : List UInt8) (marked needs : Bool) (session : Session)
    (result : (α × Document) × Session) : Prop where
  phase : Phase source (marked || needs) result.1.2
  faithful : result.2.settings.cache.Faithful
  decodings : result.2.decodings = session.decodings + (!marked && needs).toNat

variable {source : List UInt8} {value : Json} {marked : Bool} {document : Document}

theorem select_decodings (document : Document) (query : Query) (session : Session) :
    ((document.select query).run session).2.decodings = session.decodings := by
  rw [select, Session.run_bind, Session.run_context]
  cases document.content with
  | tree value => exact Session.answer_decodings (query.quiet_select _ _) session
  | raw source =>
      dsimp only
      cases Span.root? source with
      | none => rfl
      | some root => exact Session.answer_decodings (query.quiet_select _ _) session

theorem Phase.materialize (phase : Phase source marked document)
    (accepted : Json.decode source = .ok value) (session : Session) :
    ∃ held, (document.materialize.run session).1 = .ok (held, ⟨.tree held, false, true⟩) ∧
      (document.materialize.run session).2.settings = session.settings ∧
      (document.materialize.run session).2.decodings = session.decodings + (!marked).toNat := by
  cases phase with
  | undecoded =>
      refine ⟨value, ?_⟩
      simp only [Document.materialize, accepted]
      exact ⟨rfl, rfl, List.countP_append⟩
  | decoded held => exact ⟨held, rfl, rfl, rfl⟩

theorem Phase.decodedDocument (phase : Phase source marked document)
    (accepted : Json.decode source = .ok value) (session : Session) :
    ∃ form, (document.decoded.run session).1 = .ok form ∧ Phase source true form ∧
      (document.decoded.run session).2.settings = session.settings ∧
      (document.decoded.run session).2.decodings = session.decodings + (!marked).toNat := by
  rcases phase.materialize accepted session with ⟨held, answered, settings, decodings⟩
  cases phase with
  | undecoded =>
      exact ⟨_, congrArg (Except.map Prod.snd) answered, .decoded held, settings, decodings⟩
  | decoded tree => exact ⟨_, rfl, .decoded tree, rfl, rfl⟩

theorem directSegments_decodings (path : String) (session : Session) :
    ((directSegments path).run session).2.decodings = session.decodings := by
  rw [directSegments, Session.run_bind, ← Session.query_decodings path session]
  cases ((Session.query path).run session).1 with
  | error error => rfl
  | ok query =>
      dsimp only
      cases query.directSegments? <;> rfl

theorem Effect.ofUnchanged {α : Type} {session : Session} {result : (α × Document) × Session}
    (phase : Phase source marked result.1.2) (faithful : result.2.settings.cache.Faithful)
    (decodings : result.2.decodings = session.decodings) :
    Effect source marked false session result :=
  ⟨by rwa [Bool.or_false], faithful, by rw [decodings, Bool.and_false]; rfl⟩

theorem Effect.ofLater {α : Type} {needs : Bool} {session later : Session}
    {result : (α × Document) × Session} (effect : Effect source marked needs later result)
    (quiet : later.decodings = session.decodings) : Effect source marked needs session result :=
  ⟨effect.phase, effect.faithful, quiet ▸ effect.decodings⟩

theorem Phase.run (phase : Phase source marked document)
    (accepted : Json.decode source = .ok value) {session : Session}
    (faithful : session.settings.cache.Faithful) (path : String) (query : Query) :
    Effect source marked (!query.isDirect) session ((document.run path query).run session) := by
  cases isDirect : query.isDirect with
  | true =>
      have settings := (document.select_answer session query).2
      rw [Document.run, if_pos isDirect]
      refine .ofUnchanged phase ?_ (document.select_decodings query session)
      exact settings ▸ faithful
  | false =>
      rcases phase.decodedDocument accepted session with
        ⟨form, read, decoded, settings, decodings⟩
      have selected := (form.select_answer (document.decoded.run session).2 query).2
      rw [Document.run, if_neg (isDirect ▸ nofun), Session.run_bind, read]
      refine ⟨?_, ?_, ?_⟩
      · simp only [Bool.not_false, Bool.or_true]
        exact decoded
      · have same := selected.trans settings
        exact same ▸ faithful
      · rw [Bool.not_false, Bool.and_true, ← decodings]
        exact form.select_decodings query _

theorem Phase.query (phase : Phase source marked document)
    (accepted : Json.decode source = .ok value) {session : Session}
    (faithful : session.settings.cache.Faithful) (path : String) :
    Effect source marked (spellsQuery false path) session ((document.query path).run session) := by
  have looked := Session.query_answer path session
  have stillFaithful : ((Session.query path).run session).2.settings.cache.Faithful :=
    looked.2 ▸ Settings.faithful_looked faithful path
  rw [Document.query, Session.run_bind, looked.1, Settings.query_eq_parse faithful, spellsQuery]
  cases Query.parse path with
  | error error => exact .ofUnchanged phase stillFaithful (Session.query_decodings path session)
  | ok query =>
      have needs : (query.isDirect == false) = !query.isDirect := beq_false _
      dsimp only
      rw [needs]
      exact (phase.run accepted stillFaithful path query).ofLater
        (Session.query_decodings path session)

theorem Phase.edit (phase : Phase source marked document)
    (accepted : Json.decode source = .ok value) {session : Session}
    (faithful : session.settings.cache.Faithful) (path : String)
    (change : List Segment → Json → Except DocumentError Unit × Json) :
    Effect source marked (spellsQuery true path) session
      ((document.edit path change).run session) := by
  have spelled := directSegments_answer path session
  have stillFaithful : ((directSegments path).run session).2.settings.cache.Faithful :=
    spelled.2 ▸ Settings.faithful_looked faithful path
  have quiet : ((directSegments path).run session).2.decodings = session.decodings :=
    directSegments_decodings path session
  have writable : document.readOnly = false := by cases phase <;> rfl
  rw [Document.edit, if_neg (writable ▸ nofun), Session.run_bind, spelled.1, Settings.way,
    Settings.query_eq_parse faithful, spellsQuery]
  cases Query.parse path with
  | error error => exact .ofUnchanged phase stillFaithful quiet
  | ok query =>
      have needs : (query.isDirect == true) = query.isDirect := beq_true _
      dsimp only
      rw [needs, query.isDirect_eq_isSome]
      cases query.directSegments? with
      | none => exact .ofUnchanged phase stillFaithful quiet
      | some segments =>
          rcases phase.materialize accepted ((directSegments path).run session).2 with
            ⟨held, answered, settings, decodings⟩
          dsimp only
          rw [Session.run_bind, answered]
          refine ⟨?_, ?_, ?_⟩
          · simp only [Option.isSome_some, Bool.or_true]
            exact .decoded _
          · exact settings ▸ stillFaithful
          · rw [Option.isSome_some, Bool.and_true, ← quiet, ← decodings]
            rfl

theorem Phase.respond (phase : Phase source marked document)
    (accepted : Json.decode source = .ok value) {session : Session}
    (faithful : session.settings.cache.Faithful) (request : Request) :
    Effect source marked request.needsTree session ((document.respond request).run session) := by
  cases request with
  | operation operation =>
      cases operation with
      | query path =>
          have effect := phase.query accepted faithful path
          exact ⟨effect.phase, effect.faithful, effect.decodings⟩
      | queryParsed query =>
          have effect := phase.run accepted faithful "" query
          exact ⟨effect.phase, effect.faithful, effect.decodings⟩
      | set path value =>
          have effect := phase.edit accepted faithful path (Json.set value path)
          exact ⟨effect.phase, effect.faithful, effect.decodings⟩
      | delete path =>
          have effect := phase.edit accepted faithful path (Json.delete path)
          exact ⟨effect.phase, effect.faithful, effect.decodings⟩
      | view path =>
          have effect := phase.query accepted faithful path
          exact ⟨effect.phase, effect.faithful, effect.decodings⟩
      | value => exact .ofUnchanged phase faithful rfl
  | _ => exact .ofUnchanged phase faithful rfl

theorem Phase.respondAll (accepted : Json.decode source = .ok value) (requests : List Request) :
    ∀ {marked : Bool} {document : Document} {session : Session}, Phase source marked document →
      session.settings.cache.Faithful →
        Effect source marked (requests.any Request.needsTree) session
          ((document.respondAll requests).run session) := by
  induction requests with
  | nil =>
      intro marked document session phase faithful
      exact .ofUnchanged phase faithful rfl
  | cons request requests induction =>
      intro marked document session phase faithful
      have here := phase.respond accepted faithful request
      have later := induction here.phase here.faithful
      refine ⟨?_, later.faithful, ?_⟩
      · rw [List.any_cons, ← Bool.or_assoc]
        exact later.phase
      · -- A mark that is set stays set, so the requests behind the first one add nothing to it.
        have count (one other : Bool) : (!marked && one).toNat +
            (!(marked || one) && other).toNat = (!marked && (one || other)).toNat := by
          cases marked <;> cases one <;> cases other <;> rfl
        have total := later.decodings.trans (congrArg (· + _) here.decodings)
        rw [List.any_cons, ← count, ← Nat.add_assoc]
        exact total

theorem parse_eq_ok (parsed : Document.parse source = .ok document) :
    document = ⟨.raw source, false, false⟩ ∧ ∃ value, Json.decode source = .ok value := by
  cases decoded : Json.decode source with
  | ok value =>
      rw [Document.parse_of_ok decoded] at parsed
      exact ⟨(Except.ok.inj parsed).symm, value, rfl⟩
  | error defect =>
      rw [Document.parse_of_error decoded] at parsed
      cases parsed

theorem Phase.isMaterialized (phase : Phase source marked document) :
    document.isMaterialized = marked := by
  cases phase <;> rfl

theorem Phase.holdsTree (phase : Phase source marked document) :
    document.holdsTree = marked := by
  cases phase <;> rfl

theorem Phase.bytes (phase : Phase source false document) : document.bytes = source := by
  cases phase
  rfl

end Document

/-- A document that comes from text is marked as decoded after a run exactly if some request of it
needed the tree. The mark says how the document is held, and once set it stays; the text is decoded
once if it is decoded at all, and until then it is what the document writes. -/
theorem materialized_iff {source : List UInt8} {document : Document} {session : Session}
    (parsed : Document.parse source = .ok document) (faithful : session.settings.cache.Faithful)
    (requests : List Request) :
    let final := (document.respondAll requests).run session
    (final.1.2.isMaterialized = true ↔ ∃ request ∈ requests, request.needsTree = true) ∧
      final.1.2.holdsTree = final.1.2.isMaterialized ∧
      final.2.decodings = session.decodings + final.1.2.isMaterialized.toNat ∧
      (final.1.2.isMaterialized = true → ∀ later,
        ((final.1.2.respondAll later).run final.2).1.2.isMaterialized = true) ∧
      (final.1.2.isMaterialized = false → final.1.2.bytes = source) := by
  rcases Document.parse_eq_ok parsed with ⟨rfl, value, accepted⟩
  have effect := Document.Phase.respondAll accepted requests .undecoded faithful
  intro final
  have phase : Document.Phase source (requests.any Request.needsTree) final.1.2 := effect.phase
  have marked := phase.isMaterialized
  refine ⟨?_, phase.holdsTree.trans marked.symm, ?_, ?_, ?_⟩
  · rw [marked, List.any_eq_true]
  · rw [marked]
    exact effect.decodings
  · intro already later
    rw [already] at marked
    have afterwards := Document.Phase.respondAll accepted later phase effect.faithful
    rw [afterwards.phase.isMaterialized, ← marked, Bool.true_or]
  · intro unmarked
    rw [unmarked] at marked
    exact (marked ▸ phase).bytes

theorem materialized_iff_write_fails :
    ∃ document,
      Document.parse (Utf8.encode ['[', '1', ']']) = .ok document ∧
        (Session.start .standard).settings.cache.Faithful ∧
        ((document.respondAll [.operation (.query "/a"), .operation (.set "/a" .null)]).run
          (Session.start .standard)).1.2.isMaterialized = true := by
  have parsed : Document.parse (Utf8.encode ['[', '1', ']']) =
      .ok ⟨.raw (Utf8.encode ['[', '1', ']']), false, false⟩ := by cbv
  have faithful : (Session.start .standard).settings.cache.Faithful :=
    QueryCache.faithful_empty _
  have needed : Request.needsTree (.operation (.set "/a" .null)) = true := by cbv
  have marks := (materialized_iff parsed faithful
    [.operation (.query "/a"), .operation (.set "/a" .null)]).1
  exact ⟨_, parsed, faithful, marks.mpr ⟨_, .tail _ (.head _), needed⟩⟩

end JsonQuery
