import JsonQuery.Proofs.Document.Answers
import JsonQuery.Proofs.Json.Validation
import JsonQuery.Proofs.Selection.Direct
import JsonQuery.Proofs.Source.Places
import Mathlib

/-!
Lazy documents refine eager ones. A document over a text answers every sequence of operations as
the document over the decoded tree does, whichever of them makes it decode its text.
-/

namespace JsonQuery

inductive Operation where
  | query (path : String)
  | queryParsed (query : Query)
  | set (path : String) (value : Json)
  | delete (path : String)
  | view (path : String)
  | value

inductive Answer where
  | result (result : QueryResult)
  | outcome (outcome : Except DocumentError Unit)
  | view (view : Except DocumentError Document)
  | value (value : Except DocumentError Json)

namespace Document

def perform (document : Document) : Operation → Shared (Answer × Document)
  | .query path => do
    let (result, document) ← document.query path
    return (.result result, document)
  | .queryParsed query => do
    let (result, document) ← document.queryParsed query
    return (.result result, document)
  | .set path value => do
    let (outcome, document) ← document.set path value
    return (.outcome outcome, document)
  | .delete path => do
    let (outcome, document) ← document.delete path
    return (.outcome outcome, document)
  | .view path => do
    let (view, document) ← document.view path
    return (.view view, document)
  | .value => return (.value document.value, document)

def performAll (document : Document) : List Operation → Shared (List Answer × Document)
  | [] => return ([], document)
  | operation :: operations => do
    let (answer, document) ← document.perform operation
    let (answers, document) ← document.performAll operations
    return (answer :: answers, document)

/-- The documents are equal, or the second one holds the tree that the first one's text decodes
to. -/
structure Represents (raw tree : Document) : Prop where
  readOnly : raw.readOnly = tree.readOnly
  content : raw = tree ∨ ∃ source value,
    raw.content = .raw source ∧ raw.isMaterialized = false ∧
      tree.content = .tree value ∧ tree.isMaterialized = true ∧ Json.decode source = .ok value

namespace Represents

variable {raw tree : Document}

theorem refl (document : Document) : Represents document document := ⟨rfl, .inl rfl⟩

theorem value (represents : Represents raw tree) : raw.value = tree.value := by
  rcases represents.content with same | ⟨source, value, isRaw, _, isTree, _, decoded⟩
  · rw [same]
  · simp only [Document.value, isRaw, isTree, decoded]
    rfl

theorem withTree (represents : Represents raw tree) (value : Json) :
    raw.withTree value = tree.withTree value := by
  rcases represents.content with same | ⟨source, held, isRaw, unmarked, isTree, marked, _⟩
  · rw [same]
  · simp only [Document.withTree, Document.holdsTree, represents.readOnly, isRaw, unmarked, marked,
      Bool.not_false, Bool.or_true, Bool.true_or]

theorem decodedForm (represents : Represents raw tree) : raw.decodedForm = tree.decodedForm := by
  rcases represents.content with same | ⟨source, value, isRaw, unmarked, isTree, marked, decoded⟩
  · rw [same]
  · have held : raw.value = .ok value := by
      simp only [Document.value, isRaw, decoded]
      rfl
    have same : raw.withTree value = tree := by
      rw [represents.withTree value, Document.withTree, marked, Bool.true_or, ← isTree, ← marked]
    rw [Document.decodedForm, Document.decodedForm, unmarked, marked, held]
    exact congrArg Except.ok same

/-- A direct query finds the same in the text as in the tree, where names are repeated too. -/
theorem selection (represents : Represents raw tree) {query : Query}
    (isDirect : query.isDirect = true) (context : Context) :
    raw.selection query context = tree.selection query context := by
  rcases represents.content with same | ⟨source, value, isRaw, _, isTree, _, decoded⟩
  · rw [same]
  · rw [Document.selection, Document.selection, isRaw, isTree]
    rcases Json.decode_eq_ok_iff.mp decoded with ⟨text, spelled, rfl, isDocument, rfl⟩
    rcases Span.exists_root_of_document isDocument with ⟨root, isRoot, held⟩
    have shows : root.Shows (Place.root spelled.merged) := ⟨spelled, held, rfl⟩
    simp only [isRoot, similar_shows.select_direct shows isDirect]

theorem queryAnswer (represents : Represents raw tree) (path : String) (query : Query)
    (context : Context) :
    (raw.queryAnswer path query context).1 = (tree.queryAnswer path query context).1 ∧
      Represents (raw.queryAnswer path query context).2
        (tree.queryAnswer path query context).2 := by
  unfold Document.queryAnswer
  split
  next isDirect => exact ⟨by rw [represents.selection isDirect], represents⟩
  next =>
    rw [represents.decodedForm]
    cases tree.decodedForm with
    | error error => exact ⟨rfl, represents⟩
    | ok form => exact ⟨rfl, .refl form⟩

theorem editAnswer (represents : Represents raw tree)
    (way : Except DocumentError (List Segment))
    (change : List Segment → Json → Except DocumentError Unit × Json) :
    (raw.editAnswer way change).1 = (tree.editAnswer way change).1 ∧
      Represents (raw.editAnswer way change).2 (tree.editAnswer way change).2 := by
  unfold Document.editAnswer
  rw [represents.readOnly]
  split
  · exact ⟨rfl, represents⟩
  · cases way with
    | error refusal => exact ⟨rfl, represents⟩
    | ok segments =>
        rw [represents.value]
        cases tree.value with
        | error error => exact ⟨rfl, represents⟩
        | ok value =>
            simp only [represents.withTree]
            exact ⟨trivial, .refl _⟩

end Represents

structure Corresponds {α : Type} (first second : (α × Document) × Session) : Prop where
  answer : first.1.1 = second.1.1
  represents : Represents first.1.2 second.1.2
  settings : first.2.settings = second.2.settings

section Operations

variable {raw tree : Document} {left right : Session}

theorem query_corresponds (represents : Represents raw tree)
    (equal : left.settings = right.settings) (path : String) :
    Corresponds ((raw.query path).run left) ((tree.query path).run right) := by
  have first := raw.query_answer path left
  have second := tree.query_answer path right
  rw [equal] at first
  refine ⟨?_, ?_, first.2.trans second.2.symm⟩
  · rw [first.1, second.1]
    cases right.settings.query path with
    | error error => rfl
    | ok query => exact (represents.queryAnswer path query _).1
  · rw [first.1, second.1]
    cases right.settings.query path with
    | error error => exact represents
    | ok query => exact (represents.queryAnswer path query _).2

theorem run_corresponds (represents : Represents raw tree)
    (equal : left.settings = right.settings) (path : String) (query : Query) :
    Corresponds ((raw.run path query).run left) ((tree.run path query).run right) := by
  have first := raw.run_answer path left query
  have second := tree.run_answer path right query
  have answers := represents.queryAnswer path query right.settings.context
  rw [equal] at first
  refine ⟨?_, ?_, first.2.trans second.2.symm⟩
  · rw [first.1, second.1, answers.1]
  · rw [first.1, second.1]
    exact answers.2

theorem edit_corresponds (represents : Represents raw tree)
    (equal : left.settings = right.settings) (path : String)
    (change : List Segment → Json → Except DocumentError Unit × Json) :
    Corresponds ((raw.edit path change).run left) ((tree.edit path change).run right) := by
  have first := raw.edit_answer path left change
  have second := tree.edit_answer path right change
  have answers := represents.editAnswer (right.settings.way path) change
  rw [equal, represents.readOnly] at first
  refine ⟨?_, ?_, first.2.trans second.2.symm⟩
  · rw [first.1, second.1, answers.1]
  · rw [first.1, second.1]
    exact answers.2

theorem perform_corresponds (represents : Represents raw tree)
    (equal : left.settings = right.settings) (operation : Operation) :
    Corresponds ((raw.perform operation).run left) ((tree.perform operation).run right) := by
  cases operation with
  | query path =>
      have same := query_corresponds represents equal path
      exact ⟨congrArg Answer.result same.answer, same.represents, same.settings⟩
  | queryParsed query =>
      have same := run_corresponds represents equal "" query
      exact ⟨congrArg Answer.result same.answer, same.represents, same.settings⟩
  | set path value =>
      have same := edit_corresponds represents equal path (Json.set value path)
      exact ⟨congrArg Answer.outcome same.answer, same.represents, same.settings⟩
  | delete path =>
      have same := edit_corresponds represents equal path (Json.delete path)
      exact ⟨congrArg Answer.outcome same.answer, same.represents, same.settings⟩
  | view path =>
      have same := query_corresponds represents equal path
      exact ⟨congrArg (fun result : QueryResult => Answer.view (result.first.map viewOf))
        same.answer, same.represents, same.settings⟩
  | value => exact ⟨congrArg Answer.value represents.value, represents, equal⟩

theorem performAll_corresponds (operations : List Operation) :
    ∀ {raw tree : Document} {left right : Session}, Represents raw tree →
      left.settings = right.settings →
        Corresponds ((raw.performAll operations).run left)
          ((tree.performAll operations).run right) := by
  induction operations with
  | nil =>
      intro raw tree left right represents equal
      exact ⟨rfl, represents, equal⟩
  | cons operation operations induction =>
      intro raw tree left right represents equal
      have here := perform_corresponds represents equal operation
      have later := induction here.represents here.settings
      exact ⟨congrArg₂ List.cons here.answer later.answer, later.represents, later.settings⟩

end Operations

end Document

/-- Whatever is asked of a document over a text, one thing after the other, it answers as the
document over the decoded tree does under the same settings. -/
theorem performAll_parse {source : List UInt8} {value : Json}
    (decoded : Json.decode source = .ok value) (settings : Settings)
    (operations : List Operation) :
    ∃ document, Document.parse source = .ok document ∧
      ((document.performAll operations).run (Session.start settings)).1.1 =
        (((Document.ofValue value).performAll operations).run (Session.start settings)).1.1 := by
  have parsed : Document.parse source = .ok ⟨.raw source, false, false⟩ :=
    Document.parse_of_ok decoded
  have represents : Document.Represents ⟨.raw source, false, false⟩ (.ofValue value) :=
    ⟨rfl, .inr ⟨source, value, rfl, rfl, rfl, rfl, decoded⟩⟩
  exact ⟨_, parsed, (Document.performAll_corresponds operations represents rfl).answer⟩

theorem performAll_parse_repeated :
    ∃ document,
      Document.parse (Utf8.encode ['{', '"', 'a', '"', ':', '1', ',', '"', 'a', '"', ':',
        '[', 't', 'r', 'u', 'e', ']', '}']) = .ok document ∧
      ((document.performAll [.query "/a/0", .set "/a/0" .null, .query "/a", .value]).run
          (Session.start .standard)).1.1 =
        (((Document.ofValue (.object [("a", .array [.bool true])])).performAll
          [.query "/a/0", .set "/a/0" .null, .query "/a", .value]).run
            (Session.start .standard)).1.1 :=
  performAll_parse (by cbv) .standard _

end JsonQuery
