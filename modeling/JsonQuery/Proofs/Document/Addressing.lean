import JsonQuery.Proofs.Document.Caching
import JsonQuery.Proofs.Document.Refinement
import JsonQuery.Proofs.Document.RoundTrip
import JsonQuery.Proofs.Json.Locations
import JsonQuery.Proofs.Path.Writing

/-!
Paths to locations. A location is spelled with a bracket for each of its branches, whatever
characters its names hold. `location_addressed` says that a document over a text finds there what
the decoded tree has there, without decoding the text, and that it can be written to.
-/

namespace JsonQuery

open Json (Branch)

namespace Json.Branch

/-- The segment of a direct path that follows the branch. -/
def segment : Branch → Segment
  | .member name => .key name
  | .element position => .index position

def bracket : Branch → Grammar.Bracket
  | .member name => .field name
  | .element position => .index position

def write : Branch → List Char
  | .member name => bracketed (Lexer.quote name)
  | .element position => bracketed (Digits.ofNat position)

/-- The path to a location, a bracket for each branch. -/
def path (location : List Branch) : String :=
  String.ofList (location.flatMap write)

/-- Whether the position, if it is one, is an integer of 64 bits. -/
def InRange : Branch → Prop
  | .member _ => True
  | .element position => position < 0x8000000000000000

end Json.Branch

/-! ## Reading the path -/

namespace Grammar

theorem branch_written {branch : Branch} (inRange : branch.InRange) :
    BracketWritten branch.write branch.bracket := by
  cases branch with
  | member name =>
      exact ⟨_, .intro (.field name), (Lexer.Splitting.quoted 1 name).bracketed fun _ => trivial⟩
  | element position =>
      have small : position < 0x8000000000000000 := inRange
      have same : Digits.ofInt position = Digits.ofNat position := if_neg (by omega)
      have written := index_written (show InRange (position : Int) from ⟨by omega, by omega⟩)
      rwa [same] at written

theorem segments?_append {step : Step} {segments : List Segment}
    (spelled : step.segments? = some segments) (position : Int) :
    Step.segments? { step with predicates := step.predicates ++ [.index position] } =
      some (segments ++ [.index position]) := by
  simp only [Step.segments?, Option.bind_eq_bind, Option.bind_eq_some_iff, Option.some.injEq]
    at spelled
  rcases spelled with ⟨first, isFirst, others, isOthers, rfl⟩
  simp [Step.segments?, isFirst, isOthers, Predicate.segment?]

theorem directSegments?_cons {step : Step} {steps : List Step} {segments others : List Segment}
    (spelled : step.segments? = some segments)
    (othersSpelled : Query.directSegments? ⟨steps⟩ = some others) :
    Query.directSegments? ⟨step :: steps⟩ = some (segments ++ others) := by
  rcases Option.map_eq_some_iff.mp othersSpelled with ⟨lists, isLists, rfl⟩
  exact Option.map_eq_some_iff.mpr
    ⟨segments :: lists, mapM_cons_eq_some.mpr ⟨segments, lists, spelled, isLists, rfl⟩, rfl⟩

/-- Every bracket of a location gives its segment, on the step before it or in a step of its
own. -/
theorem directSegments?_attach (location : List Branch) :
    ∀ {step : Step} {segments : List Segment}, step.segments? = some segments →
      Query.directSegments? ⟨attach step (location.map Branch.bracket)⟩ =
        some (segments ++ location.map Branch.segment) := by
  induction location with
  | nil =>
      intro step segments spelled
      exact directSegments?_cons spelled rfl
  | cons branch location induction =>
      intro step segments spelled
      cases branch with
      | member name =>
          have named : Step.segments? ⟨.field name, []⟩ = some [.key name] := rfl
          exact directSegments?_cons spelled (induction named)
      | element position =>
          have extended := induction (segments?_append spelled position)
          rwa [List.append_assoc] at extended

theorem segments?_toStep (branch : Branch) :
    branch.bracket.toStep.segments? = some [branch.segment] := by
  cases branch <;> rfl

/-- The path to a location is that of a direct query, with a segment for each branch. -/
theorem exists_query_of_location {location : List Branch}
    (inRange : ∀ branch ∈ location, branch.InRange) :
    ∃ query, Query.parse (Branch.path location) = .ok query ∧
      query.directSegments? = some (location.map Branch.segment) := by
  cases location with
  | nil =>
      have spelled : QueryText [] ⟨[]⟩ := .intro (.inl rfl) (.inl rfl) .none
      exact ⟨_, Query.parse_eq_ok_iff.mpr ⟨[], .plain rfl .done, spelled⟩, rfl⟩
  | cons branch location =>
      rcases List.forall_mem_cons.mp inRange with ⟨first, others⟩
      rcases branch_written first with ⟨text, spelled, splitting⟩
      rcases brackets_written fun other there => branch_written (others other there) with
        ⟨othersText, othersSpelled, othersSplitting⟩
      have group := GroupText.intro (.bracket spelled) othersSpelled
      have isQuery : QueryText _ _ := .intro (.inl rfl) (.inl rfl) (.last group)
      refine ⟨_, Query.parse_eq_ok_iff.mpr ⟨_, ?_, isQuery⟩,
        directSegments?_attach location (segments?_toStep branch)⟩
      have cut := (splitting.append othersSplitting fun _ _ => trivial) [] trivial
      rw [List.append_nil] at cut
      rw [Branch.path, String.toList_ofList]
      cases branch <;> exact .plain rfl cut

end Grammar

/-! ## Following the path -/

namespace Json

theorem walk?_of_child? {tree child : Json} {branch : Branch}
    (leads : tree.child? branch = some child) : tree.walk? branch.segment = some child := by
  cases branch with
  | member name =>
      cases tree with
      | object members => exact leads
      | null | bool | number | string | array => cases leads
  | element position =>
      cases tree with
      | array elements =>
          have inside := (List.getElem?_eq_some_iff.mp leads).1
          rw [Branch.segment, walk?, resolveIndex?_eq_some_iff.mpr ⟨inside, .inl rfl⟩]
          exact leads
      | null | bool | number | string | object => cases leads

/-- A query of its segments goes to a location. -/
theorem walkAll?_of_at? (location : List Branch) : ∀ {tree found : Json},
    tree.at? location = some found →
      tree.walkAll? (location.map Branch.segment) = some found := by
  induction location with
  | nil =>
      intro tree found leads
      exact leads
  | cons branch location induction =>
      intro tree found leads
      rw [at?_cons, Option.bind_eq_some_iff] at leads
      rcases leads with ⟨child, there, below⟩
      rw [walkAll?, List.map_cons, List.foldlM_cons, walk?_of_child? there]
      exact induction below

/-- A write of its segments puts the value at a location, and nowhere else. -/
theorem writeAt_location (value : Json) (path : String) (location : List Branch) :
    ∀ {tree found : Json}, tree.Unrepeated → tree.at? location = some found →
      writeAt value path (location.map Branch.segment) tree =
        (.ok (), tree.replaceAt location value) := by
  induction location with
  | nil =>
      intro tree found _ _
      cases tree <;> rfl
  | cons branch location induction =>
      intro tree found unrepeated leads
      rw [at?_cons, Option.bind_eq_some_iff] at leads
      rcases leads with ⟨child, there, below⟩
      have written := induction (unrepeated.child there) below
      cases branch with
      | member name =>
          cases tree with
          | object members =>
              have found : members.lookup name = some child := there
              rw [List.map_cons, Branch.segment, writeAt, found, Option.getD_some, written,
                replaceAt, ← putMember_eq_changeMember unrepeated.1 found]
          | null | bool | number | string | array => cases there
      | element position =>
          cases tree with
          | array elements =>
              have found : elements[position]? = some child := there
              have inside := (List.getElem?_eq_some_iff.mp found).1
              have named : elementIndex elements.length (.index position) path = .ok position :=
                elementIndex_eq_ok.mpr
                  ⟨position, rfl, resolveIndex?_eq_some_iff.mpr ⟨inside, .inl rfl⟩⟩
              rw [replaceAt, List.modify_eq_set_getElem?, found]
              simp only [List.map_cons, Branch.segment, writeAt, named, found, written]
              rfl
          | null | bool | number | string | object => cases there

end Json

namespace Document

theorem represents_parsed {source : List UInt8} {tree : Json}
    (decoded : Json.decode source = .ok tree) :
    Represents ⟨.raw source, false, false⟩ (.ofValue tree) :=
  ⟨rfl, .inr ⟨source, tree, rfl, rfl, rfl, rfl, decoded⟩⟩

variable {source : List UInt8} {tree found : Json} {location : List Branch} {session : Session}
  {path : String} {query : Query}

/-- A direct path to a location finds in a text what stands there in the tree. -/
theorem query_location (decoded : Json.decode source = .ok tree)
    (leads : tree.at? location = some found)
    (spelled : session.settings.query path = .ok query)
    (direct : query.directSegments? = some (location.map Branch.segment)) :
    ((Document.query ⟨.raw source, false, false⟩ path).run session).1 =
      (⟨path, .ok [found]⟩, ⟨.raw source, false, false⟩) := by
  have isDirect : query.isDirect = true := by
    rw [query.isDirect_eq_isSome, direct]
    rfl
  have selected := (represents_parsed decoded).selection isDirect session.settings.context
  rw [selection.eq_def (.ofValue tree), ofValue] at selected
  dsimp only at selected
  rw [Query.select_tree direct, Json.walkAll?_of_at? location leads] at selected
  rw [(query_answer _ path session).1, spelled]
  dsimp only
  rw [queryAnswer, if_pos isDirect, selected]
  rfl

/-- A write to a location puts the value there. -/
theorem set_location (decoded : Json.decode source = .ok tree)
    (leads : tree.at? location = some found)
    (way : session.settings.way path = .ok (location.map Branch.segment)) (value : Json) :
    ((Document.set ⟨.raw source, false, false⟩ path value).run session).1 =
      (.ok (), .ofValue (tree.replaceAt location value)) := by
  -- A decoded tree repeats no name, so the member that is found is the only one to change.
  have unrepeated : tree.Unrepeated := by
    rcases Json.decode_eq_ok_iff.mp decoded with ⟨_, written, _, _, rfl⟩
    exact Json.unrepeated_merged written
  have held : Document.value ⟨.raw source, false, false⟩ = .ok tree :=
    (represents_parsed decoded).value
  have written := Json.writeAt_location value path location unrepeated leads
  have checked := Json.writeAt_outcome value path (location.map Branch.segment) tree
  rw [written] at checked
  rw [Document.set, (edit_answer _ path session _).1, way]
  unfold editAnswer
  rw [if_neg Bool.false_ne_true, held]
  dsimp only
  rw [Json.set, ← checked]
  dsimp only
  rw [written]
  rfl

end Document

/-- Every location of every document has a path. The path finds what the decoded tree has there,
and the text stays as it is; and a write to it puts the value there and nowhere else. A source in
memory is shorter than two to the 63rd bytes, so its positions are integers that a path can name. -/
theorem location_addressed {source : List UInt8} {tree found : Json} {location : List Branch}
    {session : Session} (decoded : Json.decode source = .ok tree)
    (inMemory : source.length < 0x8000000000000000) (leads : tree.at? location = some found)
    (faithful : session.settings.cache.Faithful) :
    ∃ document, Document.parse source = .ok document ∧
      document.content = .raw source ∧ document.isMaterialized = false ∧
      ((document.query (Branch.path location)).run session).1 =
        (⟨Branch.path location, .ok [found]⟩, document) ∧
      ∀ value,
        ((document.set (Branch.path location) value).run session).1 =
            (.ok (), .ofValue (tree.replaceAt location value)) ∧
          (tree.replaceAt location value).at? location = some value ∧
          ∀ other, ¬location <+: other → ¬other <+: location →
            (tree.replaceAt location value).at? other = tree.at? other := by
  have inRange : ∀ branch ∈ location, branch.InRange := by
    intro branch there
    cases branch with
    | member name => trivial
    | element position =>
        exact Nat.lt_trans (Json.position_lt_of_decode decoded leads position there) inMemory
  rcases Grammar.exists_query_of_location inRange with ⟨query, parsed, direct⟩
  have spelled := (Settings.query_eq_parse faithful (Branch.path location)).trans parsed
  have way : session.settings.way (Branch.path location) = .ok (location.map Branch.segment) := by
    rw [Settings.way, spelled]
    dsimp only
    rw [direct]
  refine ⟨⟨.raw source, false, false⟩, ?_, rfl, rfl, ?_, ?_⟩
  · exact Document.parse_of_ok decoded
  · exact Document.query_location decoded leads spelled direct
  · intro value
    refine ⟨Document.set_location decoded leads way value, Json.at?_replaceAt value location leads,
      ?_⟩
    intro other notAbove notBelow
    exact Json.at?_replaceAt_of_apart value location notAbove notBelow tree

/-- The name here holds a bracket and a quote. -/
theorem location_addressed_quoted :
    let source := Utf8.encode
      ['{', '"', ']', '\\', '"', '"', ':', '[', 't', 'r', 'u', 'e', ']', '}']
    let path := "[\"]\\\"\"][0]"
    source.length < 0x8000000000000000 ∧ (Session.start .standard).settings.cache.Faithful ∧
      ∃ document, Document.parse source = .ok document ∧
        ((document.query path).run (Session.start .standard)).1 =
          (⟨path, .ok [.bool true]⟩, document) ∧
        ((document.set path .null).run (Session.start .standard)).1 =
          (.ok (), .ofValue (.object [("]\"", .array [.null])])) := by
  intro source path
  have decoded : Json.decode source = .ok (.object [("]\"", .array [.bool true])]) := by cbv
  have inMemory : source.length < 0x8000000000000000 := by cbv
  have faithful : (Session.start .standard).settings.cache.Faithful :=
    QueryCache.faithful_empty _
  have leads : Json.at? (.object [("]\"", .array [.bool true])])
      [.member "]\"", .element 0] = some (.bool true) := by rfl
  have isPath : Branch.path [.member "]\"", .element 0] = path := by rfl
  rcases location_addressed decoded inMemory leads faithful with
    ⟨document, parsed, _, _, found, written⟩
  rw [isPath] at found written
  exact ⟨inMemory, faithful, document, parsed, found, (written .null).1⟩

end JsonQuery
