import JsonQuery.Proofs.Selection.DocumentOrder
import JsonQuery.Proofs.Selection.RecursiveDescent

/-!
Distinct results. After a descent the candidates may stand inside one another, so what is listed
below them no longer tells them apart. But different places have different children, so no step
makes one place of two candidates. A filter that replaces an array by its elements is the one
exception: an element may be a candidate already.
-/

namespace JsonQuery

theorem Place.nodup_children {places : List Place} (nodup : (places.map location).Nodup) :
    ((places.flatMap Node.children).map location).Nodup := by
  rw [List.map_flatMap, List.nodup_flatMap]
  constructor
  · intro place _
    rcases place.location_children with ⟨count, locations⟩
    rw [locations]
    exact List.nodup_range.map fun first second same => (List.cons.inj same).1
  · refine (List.pairwise_map.mp nodup).imp fun {left right} different => ?_
    rw [Function.onFun_apply, List.disjoint_left]
    intro shared inLeft inRight
    rcases List.mem_map.mp inLeft with ⟨first, isFirst, rfl⟩
    rcases List.mem_map.mp inRight with ⟨second, isSecond, same⟩
    rcases location_child isFirst with ⟨_, below⟩
    rcases location_child isSecond with ⟨_, belowToo⟩
    rw [below, belowToo] at same
    exact different (List.cons.inj same).2.symm

/-! ## Visits -/

namespace Visit

def Distinct (visits : List (Visit Place)) : Prop :=
  ((visits.map node).map Place.location).Nodup

variable {visits : List (Visit Place)}

theorem Distinct.sublist {others : List (Visit Place)} (distinct : Distinct visits)
    (part : others.Sublist visits) : Distinct others :=
  List.Nodup.sublist ((part.map node).map Place.location) distinct

theorem Distinct.children (distinct : Distinct visits) :
    Distinct (visits.flatMap Visit.children) := by
  have nodes : (visits.flatMap Visit.children).map node =
      (visits.map node).flatMap Node.children := by
    rw [List.map_flatMap, List.flatMap_map]
    refine List.flatMap_congr fun visit _ => ?_
    rw [Visit.children, List.map_map]
    exact List.map_id _
  rw [Distinct, nodes]
  exact Place.nodup_children distinct

theorem Distinct.addTo (distinct : Distinct visits) (visit : Visit Place) :
    Distinct (visit.addTo visits) := by
  rw [Visit.addTo]
  split
  next => exact distinct
  next new =>
    have missing : visit.node.location ∉ (visits.map node).map Place.location := by
      rw [List.map_map]
      intro there
      rcases List.mem_map.mp there with ⟨other, isOther, same⟩
      exact new (List.any_eq_true.mpr ⟨other, isOther, beq_iff_eq.mpr same⟩)
    rw [Distinct, List.map_append, List.map_append]
    exact distinct.append (List.nodup_singleton _) (List.disjoint_singleton.mpr missing)

theorem Distinct.descend (context : Context) (name : String) (levels : Nat) :
    ∀ (visit : Visit Place) {found : List (Visit Place)}, Distinct found →
      Ends Distinct (· = .tooDeep context.maxDepth)
        (visit.descend context name levels found).outcome := by
  induction levels with
  | zero => exact fun _ _ _ => rfl
  | succ levels induction =>
      intro visit found distinct
      rw [descend_succ]
      refine Ends.foldlM ?_ fun done distinctDone child _ => induction child distinctDone
      split
      next => exact distinct.addTo _
      next => exact distinct

end Visit

/-! ## Candidates -/

namespace Candidate

def isGroup : Candidate Place → Bool
  | .node _ => false
  | .group _ => true

def inner : Candidate Place → List (Visit Place)
  | .node visit => visit.children
  | .group members => members

/-- The candidates between two steps are all nodes or all groups, and no place stands among them
twice. -/
structure Distinct (candidates : List (Candidate Place)) : Prop where
  alike : ∃ grouped, ∀ candidate ∈ candidates, candidate.isGroup = grouped
  visits : Visit.Distinct (flatten candidates)

theorem flatten_nodes (visits : List (Visit Place)) : flatten (visits.map node) = visits := by
  rw [flatten, List.flatMap_map]
  exact List.flatMap_singleton' visits

theorem distinct_nodes {visits : List (Visit Place)} (distinct : Visit.Distinct visits) :
    Distinct (visits.map node) := by
  refine ⟨⟨false, List.forall_mem_map.mpr fun _ _ => rfl⟩, ?_⟩
  rw [flatten_nodes]
  exact distinct

theorem tested_of_atIndex? {candidate found : Candidate Place} {position : Int}
    (isFound : candidate.atIndex? position = some found) :
    candidate.tested false = candidate.inner := by
  cases candidate with
  | group members => rfl
  | node visit =>
      rw [atIndex?] at isFound
      split at isFound
      next isArray => exact tested_array isArray
      next => cases isFound

theorem tested_of_slice? {candidate found : Candidate Place} {start stop : Option Int}
    (isFound : candidate.slice? start stop = some found) :
    candidate.tested false = candidate.inner := by
  cases candidate with
  | group members => rfl
  | node visit =>
      rw [slice?] at isFound
      split at isFound
      next isArray => exact tested_array isArray
      next => cases isFound

namespace Distinct

variable {candidates : List (Candidate Place)} (distinct : Distinct candidates)

include distinct

/-- Groups hold different places, and different nodes have different children. -/
theorem inner : Visit.Distinct (candidates.flatMap Candidate.inner) := by
  rcases distinct.alike with ⟨grouped, alike⟩
  cases grouped with
  | true =>
      have same : candidates.flatMap Candidate.inner = flatten candidates := by
        refine List.flatMap_congr fun candidate there => ?_
        cases candidate with
        | node visit => cases alike _ there
        | group members => rfl
      rw [same]
      exact distinct.visits
  | false =>
      have same : candidates.flatMap Candidate.inner =
          (flatten candidates).flatMap Visit.children := by
        rw [flatten, List.flatMap_assoc]
        refine List.flatMap_congr fun candidate there => ?_
        cases candidate with
        | node visit => exact (List.flatMap_singleton _ _).symm
        | group members => cases alike _ there
      rw [same]
      exact distinct.visits.children

theorem filterMap (grouped : Bool) {change : Candidate Place → Option (Candidate Place)}
    (each : ∀ candidate ∈ candidates, ∀ found, change candidate = some found →
      found.isGroup = grouped ∧ (flatten [found]).Sublist candidate.inner) :
    Distinct (candidates.filterMap change) := by
  constructor
  · refine ⟨grouped, fun found there => ?_⟩
    rcases List.mem_filterMap.mp there with ⟨candidate, inCandidates, isFound⟩
    exact (each candidate inCandidates found isFound).1
  · refine distinct.inner.sublist ?_
    rw [flatten, List.filterMap_eq_flatMap_toList, List.flatMap_assoc]
    refine .flatMap_right candidates fun candidate there => ?_
    cases isFound : change candidate with
    | none => exact List.nil_sublist _
    | some found => exact (each candidate there found isFound).2

theorem indexed (position : Int) : Distinct (candidates.filterMap (·.atIndex? position)) := by
  refine distinct.filterMap false fun candidate _ found isFound => ?_
  rcases atIndex?_tested isFound with ⟨visit, there, rfl⟩
  rw [tested_of_atIndex? isFound] at there
  exact ⟨rfl, List.singleton_sublist.mpr there⟩

theorem sliced (start stop : Option Int) :
    Distinct (candidates.filterMap (·.slice? start stop)) := by
  refine distinct.filterMap true fun candidate _ found isFound => ?_
  have isSlice := slice?_tested isFound
  rw [tested_of_slice? isFound] at isSlice
  rw [isSlice]
  refine ⟨rfl, ?_⟩
  show ([Candidate.group _].flatMap _).Sublist _
  rw [List.flatMap_singleton]
  exact sliceOf_sublist start stop candidate.inner

end Distinct

end Candidate

/-! ## Steps -/

abbrev FindsDistinct (context : Context) (found : Traced (List (Candidate Place))) : Prop :=
  Ends Candidate.Distinct (· = .tooDeep context.maxDepth) found.outcome

section Steps

variable (context : Context) {candidates : List (Candidate Place)}
  (distinct : Candidate.Distinct candidates)

include distinct

theorem Selector.findsDistinct (selector : Selector) :
    FindsDistinct context (selector.apply context candidates) := by
  cases selector with
  | current => exact distinct
  | index position => exact distinct.indexed position
  | slice start stop => exact distinct.sliced start stop
  | field name =>
      -- Each visit has at most one member or element of the name, which is one of its children.
      show Candidate.Distinct ((Candidate.flatten candidates).filterMap _)
      rw [← List.map_filterMap]
      refine Candidate.distinct_nodes (distinct.visits.children.sublist ?_)
      rw [List.filterMap_eq_flatMap_toList]
      refine .flatMap_right _ fun visit _ => ?_
      cases isField : visit.field? name with
      | none => exact List.nil_sublist _
      | some found =>
          rcases Visit.field?_mem isField with ⟨node, there, rfl⟩
          exact List.singleton_sublist.mpr (List.mem_map_of_mem there)
  | wildcard =>
      show Candidate.Distinct ((Candidate.flatten candidates).flatMap _)
      rw [← List.map_flatMap]
      exact Candidate.distinct_nodes distinct.visits.children
  | recursive name =>
      rw [FindsDistinct, Selector.apply, Traced.outcome_bind, Traced.outcome_foldlM]
      have nothing : Visit.Distinct [] := List.nodup_nil
      refine (Ends.foldlM nothing fun found distinctFound visit _ => ?_).bind fun found distinct =>
        Candidate.distinct_nodes distinct
      exact distinctFound.descend context name _ visit
  | parent =>
      refine Candidate.distinct_nodes (List.foldlRecOn _ _ List.nodup_nil ?_)
      exact fun found distinctFound parent _ => distinctFound.addTo parent

/-- A filter on a step that fans out tests the candidates themselves. -/
theorem Predicate.findsDistinct {fanOut : Bool} {predicate : Predicate}
    (filtered : (∃ condition, predicate = .filter condition) → fanOut = true) :
    FindsDistinct context (predicate.apply context fanOut candidates) := by
  cases predicate with
  | index position => exact distinct.indexed position
  | slice start stop => exact distinct.sliced start stop
  | filter condition =>
      cases filtered ⟨condition, rfl⟩
      have tested : candidates.flatMap (·.tested true) = Candidate.flatten candidates := by
        refine List.flatMap_congr fun candidate _ => ?_
        cases candidate <;> rfl
      rw [FindsDistinct, Predicate.apply, Traced.outcome_bind, filter_places, ok_bind, tested]
      exact Candidate.distinct_nodes (distinct.visits.sublist List.filter_sublist)

theorem Step.findsDistinct {step : Step}
    (filtered : ∀ condition, .filter condition ∈ step.predicates →
      step.selector.isFanOut = true) :
    FindsDistinct context (step.apply context candidates) := by
  rw [FindsDistinct, Step.apply, Traced.outcome_bind]
  refine (step.selector.findsDistinct context distinct).bind fun selected distinctSelected => ?_
  rw [Traced.outcome_foldlM]
  refine Ends.foldlM distinctSelected fun refined distinctRefined predicate there => ?_
  refine predicate.findsDistinct context distinctRefined ?_
  rintro ⟨condition, rfl⟩
  exact filtered condition there

end Steps

def Match.nodes {ν : Type} : Match ν → List ν
  | .node found => [found]
  | .array elements => elements

theorem Candidate.nodes_toMatch (candidates : List (Candidate Place)) :
    (candidates.map toMatch).flatMap Match.nodes = (flatten candidates).map Visit.node := by
  rw [flatten, List.flatMap_map, List.map_flatMap]
  refine List.flatMap_congr fun candidate _ => ?_
  cases candidate <;> rfl

/-- If only steps that fan out are filtered, a query reports no node twice, whatever else its steps
do. It has an answer unless it descends too deep. -/
theorem matches_distinct {query : Query} (context : Context) (value : Json)
    (filtered : ∀ step ∈ query.steps, ∀ condition, .filter condition ∈ step.predicates →
      step.selector.isFanOut = true) :
    Ends
      (fun found => (found.flatMap Match.nodes).Pairwise fun left right =>
        Node.same left right = false)
      (· = .tooDeep context.maxDepth)
      (query.execute context (Place.root value)).outcome := by
  have root : Visit.Distinct [⟨Place.root value, []⟩] := List.nodup_singleton _
  have run : FindsDistinct context (query.candidates context (Place.root value)) := by
    rw [FindsDistinct, Query.candidates, Traced.outcome_foldlM]
    refine Ends.foldlM (Candidate.distinct_nodes root) fun candidates distinct step there => ?_
    exact Step.findsDistinct context distinct (filtered step there)
  rw [Query.execute, Traced.outcome_bind]
  refine run.bind fun candidates distinct => ?_
  show ((candidates.map Candidate.toMatch).flatMap Match.nodes).Pairwise _
  rw [Candidate.nodes_toMatch]
  exact (List.pairwise_map.mp distinct.visits).imp beq_eq_false_iff_ne.mpr

theorem matches_distinct_nested :
    let value := Json.object [("a", .array [.object [("a", .array [.null])], .bool true])]
    let query : Query := ⟨[⟨.recursive "a",
      [.slice none (some 2), .filter (.literal (.bool true))]⟩]⟩
    (∀ step ∈ query.steps, ∀ condition, .filter condition ∈ step.predicates →
      step.selector.isFanOut = true) ∧
    ∃ found, (query.execute ⟨.builtIn, 4⟩ (Place.root value)).outcome = .ok found ∧
      (found.flatMap Match.nodes).map Place.location = [[0, 0], [1, 0], [0, 0, 0, 0]] ∧
      (found.flatMap Match.nodes).Pairwise fun left right => Node.same left right = false := by
  intro value query
  have filtered : ∀ step ∈ query.steps, ∀ condition, .filter condition ∈ step.predicates →
      step.selector.isFanOut = true :=
    List.forall_mem_singleton.mpr fun _ _ => rfl
  have run := matches_distinct ⟨.builtIn, 4⟩ value filtered
  rcases isFound : (query.execute ⟨.builtIn, 4⟩ (Place.root value)).outcome with error | found
  · cases isFound
  · rw [isFound] at run
    refine ⟨filtered, found, rfl, ?_, run⟩
    cases isFound
    rfl

end JsonQuery
