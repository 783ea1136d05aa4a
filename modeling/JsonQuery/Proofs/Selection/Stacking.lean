import JsonQuery.Proofs.Selection.Slices
import Mathlib

/-!
Filters on filters. A filter leaves nodes and no groups, so the filter after it tests what is kept
as it stands, unless a kept node is an array that it would open. As long as none is, the filters of
a step keep what passes all of them, in whatever order they come.
-/

namespace JsonQuery

/-- Whether a filter tests a visit as it stands and does not open it. -/
def Visit.Settled (fanOut : Bool) (visit : Visit Place) : Prop :=
  fanOut = true ∨ Node.kind visit.node ≠ .array

open Visit (Settled)

namespace Candidate

def elements : Candidate Place → List (Visit Place)
  | .node visit => visit.node.elements.map visit.child
  | .group members => members

theorem tested_settled {fanOut : Bool} {visit : Visit Place} (settled : Settled fanOut visit) :
    (Candidate.node visit).tested fanOut = [visit] := by
  cases fanOut with
  | true => simp [tested]
  | false =>
      have notArray : Node.kind visit.node ≠ .array := by simpa [Settled] using settled
      simp [tested, notArray]

theorem tested_nodes {fanOut : Bool} {visits : List (Visit Place)}
    (settled : ∀ visit ∈ visits, Settled fanOut visit) :
    (visits.map Candidate.node).flatMap (·.tested fanOut) = visits := by
  rw [List.flatMap_map]
  calc visits.flatMap (fun visit => (Candidate.node visit).tested fanOut)
      = visits.flatMap (fun visit => [visit]) :=
        List.flatMap_congr fun visit there => tested_settled (settled visit there)
    _ = visits := List.flatMap_singleton' visits

theorem settled_of_tested {candidate : Candidate Place} {visit : Visit Place}
    (isTested : visit ∈ candidate.tested false) (notElement : visit ∉ candidate.elements) :
    Settled false visit := by
  cases candidate with
  | group members => exact absurd isTested notElement
  | node node =>
      by_cases isArray : Node.kind node.node = .array
      · rw [tested_array isArray, Visit.children] at isTested
        rw [elements, ← Place.children_of_array isArray] at notElement
        exact absurd isTested notElement
      · have isNode : visit = node := by simpa [tested, isArray] using isTested
        rw [isNode]
        exact .inr isArray

end Candidate

def Expression.allHold (context : Context) (conditions : List Expression) (place : Place) : Bool :=
  conditions.all fun condition => condition.holds context place

theorem Expression.holds_and (context : Context) (first second : Expression) (place : Place) :
    Expression.holds context (.binary .and first second) place =
      (first.holds context place && second.holds context place) := by
  rw [Expression.holds, Expression.evaluate, Traced.outcome_bind, first.evaluate_place]
  cases first.holds context place with
  | false => simp
  | true => simp [second.evaluate_place]

theorem Expression.filter_allHold (context : Context) (condition : Expression)
    (conditions : List Expression) (visits : List (Visit Place)) :
    (visits.filter fun visit => condition.holds context visit.node).filter
        (fun visit => allHold context conditions visit.node) =
      visits.filter fun visit => allHold context (condition :: conditions) visit.node := by
  rw [List.filter_filter]
  simp only [allHold, List.all_cons, Bool.and_comm]

namespace Selector

variable (selector : Selector) (context : Context)

theorem refine_nil (candidates : List (Candidate Place)) :
    selector.refine context [] candidates = pure candidates := rfl

theorem refine_filter (condition : Expression) (predicates : List Predicate)
    (candidates : List (Candidate Place)) :
    (selector.refine context (.filter condition :: predicates) candidates).outcome =
      (selector.refine context predicates
        (((candidates.flatMap (·.tested selector.isFanOut)).filter
          fun visit => condition.holds context visit.node).map .node)).outcome := by
  rw [refine_cons, Predicate.apply, Traced.outcome_bind, Traced.outcome_bind, filter_places]
  rfl

theorem refine_filters_settled (conditions : List Expression) :
    ∀ {visits : List (Visit Place)}, (∀ visit ∈ visits, Settled selector.isFanOut visit) →
      (selector.refine context (conditions.map .filter) (visits.map .node)).outcome =
        .ok ((visits.filter fun visit =>
          Expression.allHold context conditions visit.node).map .node) := by
  induction conditions with
  | nil =>
      intro visits _
      simp [refine, Expression.allHold]
  | cons condition conditions induction =>
      intro visits settled
      have keptSettled : ∀ visit ∈ visits.filter fun visit => condition.holds context visit.node,
          Settled selector.isFanOut visit :=
        fun visit kept => settled visit (List.mem_of_mem_filter kept)
      rw [List.map_cons, refine_filter, Candidate.tested_nodes settled, induction keptSettled,
        Expression.filter_allHold]

/-- Filters keep the tested visits that pass all of them, if the first keeps none that the others
open. -/
theorem refine_filters (condition : Expression) (conditions : List Expression)
    {candidates : List (Candidate Place)}
    (settled : ∀ visit ∈ candidates.flatMap (·.tested selector.isFanOut),
      condition.holds context visit.node = true → Settled selector.isFanOut visit) :
    (selector.refine context ((condition :: conditions).map .filter) candidates).outcome =
      .ok (((candidates.flatMap (·.tested selector.isFanOut)).filter fun visit =>
        Expression.allHold context (condition :: conditions) visit.node).map .node) := by
  have keptSettled : ∀ visit ∈ (candidates.flatMap (·.tested selector.isFanOut)).filter
      fun visit => condition.holds context visit.node, Settled selector.isFanOut visit := by
    intro visit kept
    obtain ⟨isTested, passes⟩ := List.mem_filter.mp kept
    exact settled visit isTested passes
  rw [List.map_cons, refine_filter, refine_filters_settled selector context conditions keptSettled,
    Expression.filter_allHold]

end Selector

/-- Stacked filters are a conjunction. Two filters on one step, in either order, keep the same
visits, in the same order, as one filter with both conditions joined by `&&`: those that it tests
and that pass both. Where the step does not fan out, this takes that no element of an array node and
no member of a group is an array and passes one of the filters. -/
theorem stacked_filters (context : Context) (selector : Selector)
    (candidates : List (Candidate Place)) (first second : Expression)
    (noneNested : selector.isFanOut = true ∨
      ∀ candidate ∈ candidates, ∀ visit ∈ candidate.elements,
        first.holds context visit.node = true ∨ second.holds context visit.node = true →
          Node.kind visit.node ≠ .array) :
    ∃ kept : List (Visit Place),
      kept = (candidates.flatMap (·.tested selector.isFanOut)).filter (fun visit =>
        first.holds context visit.node && second.holds context visit.node) ∧
      (selector.refine context [.filter first, .filter second] candidates).outcome =
        .ok (kept.map .node) ∧
      (selector.refine context [.filter second, .filter first] candidates).outcome =
        .ok (kept.map .node) ∧
      (selector.refine context [.filter (.binary .and first second)] candidates).outcome =
        .ok (kept.map .node) := by
  have settled : ∀ visit ∈ candidates.flatMap (·.tested selector.isFanOut),
      first.holds context visit.node = true ∨ second.holds context visit.node = true →
        Settled selector.isFanOut visit := by
    intro visit isTested passes
    by_cases fansOut : selector.isFanOut = true
    · exact .inl fansOut
    · have noFanOut : selector.isFanOut = false := by simpa using fansOut
      obtain ⟨candidate, isCandidate, inCandidate⟩ := List.mem_flatMap.mp isTested
      rw [noFanOut] at inCandidate ⊢
      by_cases isElement : visit ∈ candidate.elements
      · exact .inr (noneNested.resolve_left fansOut candidate isCandidate visit isElement passes)
      · exact Candidate.settled_of_tested inCandidate isElement
  have forward := selector.refine_filters context first [second]
    fun visit isTested passes => settled visit isTested (.inl passes)
  have backward := selector.refine_filters context second [first]
    fun visit isTested passes => settled visit isTested (.inr passes)
  have joined := selector.refine_filter context (.binary .and first second) [] candidates
  simp only [List.map_cons, List.map_nil, Expression.allHold, List.all_cons, List.all_nil,
    Bool.and_true] at forward backward
  simp only [Expression.holds_and, Selector.refine_nil, Traced.outcome_pure] at joined
  refine ⟨_, rfl, forward, ?_, joined⟩
  simp only [backward, Bool.and_comm]

theorem stacked_filters_mixed :
    let context : Context := ⟨.builtIn, defaultMaxDepth⟩
    let both : Json := .object [("a", .null), ("b", .null)]
    let onlyA : Json := .object [("a", .bool false)]
    let array : Visit Place := ⟨.root (.array [onlyA, .array [both], both]), []⟩
    let object : Visit Place := ⟨.root both, []⟩
    let members := sliceOf (some 2) none array.children
    let candidates : List (Candidate Place) := [.node array, .node object, .group members]
    let first : Expression := .reference [.key "a"]
    let second : Expression := .reference [.key "b"]
    let kept := (members ++ object :: members).map Candidate.node
    ((Selector.field "k").refine context [.filter first, .filter second] candidates).outcome =
        .ok kept ∧
      ((Selector.field "k").refine context [.filter second, .filter first] candidates).outcome =
        .ok kept ∧
      ((Selector.field "k").refine context [.filter (.binary .and first second)]
        candidates).outcome = .ok kept := by
  intro context both onlyA array object members candidates first second kept
  have noneNested : (Selector.field "k").isFanOut = true ∨
      ∀ candidate ∈ candidates, ∀ visit ∈ candidate.elements,
        first.holds context visit.node = true ∨ second.holds context visit.node = true →
          Node.kind visit.node ≠ .array := by
    right
    decide
  obtain ⟨visits, isKept, results⟩ :=
    stacked_filters context (.field "k") candidates first second noneNested
  have computed : visits = members ++ object :: members := isKept.trans rfl
  rw [computed] at results
  exact results

/-- Without this the second filter opens an array that the first has kept. -/
example :
    let context : Context := ⟨.builtIn, defaultMaxDepth⟩
    let nested : Candidate Place := .node ⟨.root (.array [.array [.null]]), []⟩
    let filter := Predicate.filter (.literal (.bool true))
    ((Selector.field "k").refined context [filter] nested).outcome = .ok [.array [.null]] ∧
      ((Selector.field "k").refined context [filter, filter] nested).outcome = .ok [.null] := by
  constructor <;> rfl

end JsonQuery
