import JsonQuery.Proofs.Document.Holding
import JsonQuery.Proofs.Selection.Pointwise

/-!
Queries in stages. Where the steps of a query end in steps that look at one candidate at a time,
these may as well be run on the values that the steps before them have found.
-/

namespace JsonQuery

theorem QueryResult.outcome_selectAll (query : Query) (context : Context) (values : List Json)
    {found : Json → List Json}
    (each : ∀ value ∈ values, value.selection query context = .ok (found value)) :
    (selectAll query context values).outcome = .ok (values.flatMap found) := by
  induction values with
  | nil => rfl
  | cons value values induction =>
      rw [List.forall_mem_cons] at each
      have here : (query.select context (Place.root value)).outcome = .ok (found value) := each.1
      simp only [selectAll, Traced.outcome_bind, here, induction each.2, List.flatMap_cons]
      rfl

/-- Every match that the steps find in the value is a place of it, none an array that a slice has
put together. -/
def Json.FindsPlaces (value : Json) (query : Query) (context : Context) : Prop :=
  ∀ all, (query.execute context (Place.root value)).outcome = .ok all →
    ∀ found ∈ all, ∃ place, found = .node place

theorem Json.FindsPlaces.candidates {value : Json} {query : Query} {context : Context}
    {candidates : List (Candidate Place)} (finds : value.FindsPlaces query context)
    (found : (query.candidates context (Place.root value)).outcome = .ok candidates) :
    ∀ candidate ∈ candidates, ∃ visit, candidate = .node visit := by
  have matched : (query.execute context (Place.root value)).outcome =
      .ok (candidates.map Candidate.toMatch) := by
    rw [Query.execute, Traced.outcome_bind, found]
    rfl
  intro candidate isCandidate
  rcases finds _ matched _ (List.mem_map_of_mem isCandidate) with ⟨place, isNode⟩
  cases candidate with
  | node visit => exact ⟨visit, rfl⟩
  | group members => cases isNode

theorem Json.selection_append {value : Json} {first second : List Step} {context : Context}
    (isLocal : ∀ step ∈ second, step.isLocal = true)
    (finds : value.FindsPlaces ⟨first⟩ context) :
    value.selection ⟨first ++ second⟩ context = (do
      let values ← value.selection ⟨first⟩ context
      (QueryResult.selectAll ⟨second⟩ context values).outcome) := by
  have pointwise : Pointwise fun candidates : List (Candidate Place) =>
      second.foldlM (Step.apply context) candidates :=
    .foldlM second fun step inSecond => Step.pointwise context (isLocal step inSecond)
  rcases pointwise with ⟨image, each, moves⟩
  have staged : (Query.candidates ⟨first ++ second⟩ context (Place.root value)).outcome = (do
      let candidates ← (Query.candidates ⟨first⟩ context (Place.root value)).outcome
      .ok (candidates.flatMap image)) := by
    simp only [Query.candidates, Traced.outcome_foldlM, List.foldlM_append] at each ⊢
    simp only [each]
  rw [selection_eq, selection_eq, staged]
  cases found : (Query.candidates ⟨first⟩ context (Place.root value)).outcome with
  | error error => rfl
  | ok candidates =>
      have nodes := finds.candidates found
      -- From the value of a visit on, the steps find what they find below the visit.
      let images (value : Json) : List Json :=
        (image (.node ⟨Place.root value, []⟩)).map Candidate.value
      have selected (value : Json) : value.selection ⟨second⟩ context = .ok (images value) := by
        rw [selection_eq, Query.candidates, each, List.flatMap_singleton]
        rfl
      have same : ∀ candidate ∈ candidates,
          (image candidate).map Candidate.value = images candidate.value := by
        intro candidate isCandidate
        rcases nodes candidate isCandidate with ⟨visit, rfl⟩
        have moved : image (.node visit) =
            (image (.node ⟨Place.root visit.node.value, []⟩)).map (·.below visit) :=
          moves visit (.node ⟨Place.root visit.node.value, []⟩)
        rw [moved, List.map_map]
        exact List.map_congr_left fun below _ => below.value_below visit
      show Except.ok ((candidates.flatMap image).map Candidate.value) =
        (QueryResult.selectAll ⟨second⟩ context (candidates.map Candidate.value)).outcome
      rw [QueryResult.outcome_selectAll _ _ _ fun value _ => selected value, List.map_flatMap,
        List.flatMap_map]
      exact congrArg Except.ok (List.flatMap_congr same)

/-- Steps that are followed by steps that look at one candidate at a time: where they find places
only, the query of all the steps selects what the further steps select from the values of these,
one value after the other, and fails as the first steps fail. So a query on the result of a query
finds what the query of all the steps finds in the document. -/
theorem query_in_stages {first second : List Step}
    (isLocal : ∀ step ∈ second, step.isLocal = true) :
    (∀ (value : Json) (context : Context), value.FindsPlaces ⟨first⟩ context →
      value.selection ⟨first ++ second⟩ context = (do
        let values ← value.selection ⟨first⟩ context
        (QueryResult.selectAll ⟨second⟩ context values).outcome)) ∧
    ∀ {document : Document} {value : Json} {session : Session} {path further whole : String},
      document.Holds value → session.settings.cache.Faithful →
        value.FindsPlaces ⟨first⟩ session.settings.context →
          Query.parse path = .ok ⟨first⟩ → Query.parse further = .ok ⟨second⟩ →
            Query.parse whole = .ok ⟨first ++ second⟩ →
              let result := (document.query path).run session
              ((result.1.1.query further).run result.2).1.outcome =
                ((document.query whole).run session).1.1.outcome := by
  constructor
  · intro value context finds
    exact Json.selection_append isLocal finds
  · intro document value session path further whole holds faithful finds isFirst isSecond isWhole
    have settings := (document.query_answer path session).2
    have stillFaithful : ((document.query path).run session).2.settings.cache.Faithful :=
      settings ▸ Settings.faithful_looked faithful path
    have sameContext : ((document.query path).run session).2.settings.context =
        session.settings.context := by
      rw [settings]
      rfl
    intro result
    rw [QueryResult.query_answer result.1.1 further stillFaithful, sameContext,
      (holds.query path faithful).1, (holds.query whole faithful).1, QueryResult.found, Json.find,
      Json.find, isFirst, isSecond, isWhole]
    show _ = (value.selection ⟨first ++ second⟩ _).mapError _
    rw [Json.selection_append isLocal finds]
    show ((value.selection ⟨first⟩ _).mapError _ >>= _) = _
    cases value.selection ⟨first⟩ session.settings.context <;> rfl

/-- The first query goes to all elements, so the document decodes its text for it. -/
theorem query_in_stages_elements :
    let session := Session.start .standard
    ∃ document, Document.parse (Utf8.encode "[[1],[2,3]]".toList) = .ok document ∧
      let result := (document.query "/*").run session
      ((result.1.1.query "/0").run result.2).1.outcome =
        ((document.query "/*/0").run session).1.1.outcome := by
  let one : Json := .array [.number (.integer 1)]
  let two : Json := .array [.number (.integer 2), .number (.integer 3)]
  have decoded : Json.decode (Utf8.encode "[[1],[2,3]]".toList) = .ok (.array [one, two]) := by
    cbv
  have parsed : Document.parse (Utf8.encode "[[1],[2,3]]".toList) =
      .ok ⟨.raw (Utf8.encode "[[1],[2,3]]".toList), false, false⟩ :=
    Document.parse_of_ok decoded
  have isFirst : Query.parse "/*" = .ok ⟨[⟨.wildcard, []⟩]⟩ := by cbv
  have isSecond : Query.parse "/0" = .ok ⟨[⟨.field "0", []⟩]⟩ := by cbv
  have isWhole : Query.parse "/*/0" = .ok ⟨[⟨.wildcard, []⟩, ⟨.field "0", []⟩]⟩ := by cbv
  have isLocal : ∀ step ∈ [Step.mk (.field "0") []], step.isLocal = true :=
    List.forall_mem_singleton.mpr rfl
  have finds : Json.FindsPlaces (.array [one, two]) ⟨[⟨.wildcard, []⟩]⟩
      (Session.start .standard).settings.context := by
    intro all isAll found inAll
    cases isAll
    rcases List.mem_pair.mp inAll with rfl | rfl <;> exact ⟨_, rfl⟩
  intro session
  rcases Document.holds_parse parsed with ⟨value, same, holds⟩
  rw [decoded] at same
  cases same
  exact ⟨_, parsed, (query_in_stages isLocal).2 holds (QueryCache.faithful_empty _) finds isFirst
    isSecond isWhole⟩

end JsonQuery
