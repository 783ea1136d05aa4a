import JsonQuery.Proofs.Selection.Inheritance
import JsonQuery.Proofs.Selection.Pointwise
import Mathlib

/-!
Document order. Without descents and parents a query goes down in a tree and never back: what is
listed below the candidates, one candidate after the other, stays a part of what is listed below
the root. So the candidates are different places in the order of the tree, and none stands below
another.
-/

namespace JsonQuery

theorem sublist_flatMap_of_mem {α β : Type} {items : List α} {item : α} (there : item ∈ items)
    (image : α → List β) : (image item).Sublist (items.flatMap image) := by
  have sublist := (List.singleton_sublist.mpr there).flatMap image
  rwa [List.flatMap_singleton] at sublist

/-! ## The places of a tree -/

namespace Place

def listing (place : Place) : List Place :=
  place :: (Node.children place).attach.flatMap fun child => child.1.listing
termination_by sizeOf place.value
decreasing_by exact sizeOf_child child.2

theorem listing_eq (place : Place) :
    place.listing = place :: (Node.children place).flatMap listing := by
  rw [listing, List.flatMap_subtype (g := listing) fun _ _ => rfl, List.unattach_attach]

theorem self_mem_listing (place : Place) : place ∈ place.listing := by
  rw [listing_eq]
  exact List.mem_cons_self

theorem listing_children (place : Place) :
    ((Node.children place).flatMap listing).Sublist place.listing := by
  rw [listing_eq]
  exact List.sublist_cons_self _ _

theorem listing_child {place child : Place} (there : child ∈ Node.children place) :
    child.listing.Sublist place.listing :=
  (sublist_flatMap_of_mem there listing).trans place.listing_children

/-- A place stands above another one, which is a child of it or below one of its children. -/
def Above : Place → Place → Prop :=
  Relation.TransGen fun place child => child ∈ Node.children place

theorem listing_above {upper lower : Place} (above : upper.Above lower) :
    lower.listing.Sublist upper.listing := by
  induction above with
  | single there => exact listing_child there
  | tail _ there induction => exact (listing_child there).trans induction

theorem location_children (place : Place) : ∃ count, (Node.children place).map location =
    (List.range count).map fun position => position :: place.location := by
  show ∃ count, place.children.map location = _
  rcases place with ⟨value, location⟩
  cases value with
  | array elements =>
      refine ⟨elements.length, List.ext_getElem (by simp [children, Place.elements]) ?_⟩
      simp [children, Place.elements, child]
  | object members =>
      refine ⟨members.length, List.ext_getElem (by simp [children, Place.members]) ?_⟩
      simp [children, Place.members, child]
  | null | bool | number | string => exact ⟨0, rfl⟩

theorem location_child {place child : Place} (there : child ∈ Node.children place) :
    ∃ position, child.location = position :: place.location := by
  rcases place.location_children with ⟨count, locations⟩
  have inLocations := List.mem_map_of_mem (f := location) there
  rw [locations] at inLocations
  rcases List.mem_map.mp inLocations with ⟨position, _, isLocation⟩
  exact ⟨position, isLocation.symm⟩

theorem location_listing (place : Place) :
    ∀ found ∈ place.listing, place.location <:+ found.location := by
  induction place using listing.induct with
  | case1 place induction =>
      rw [listing_eq, List.forall_mem_cons]
      refine ⟨List.suffix_rfl, fun found there => ?_⟩
      rcases List.mem_flatMap.mp there with ⟨child, isChild, below⟩
      rcases location_child isChild with ⟨position, isLocation⟩
      have suffix := induction ⟨child, isChild⟩ found below
      rw [isLocation] at suffix
      exact (List.suffix_cons _ _).trans suffix

theorem listing_children_disjoint (place : Place) : (Node.children place).Pairwise
    fun left right => (left.listing.map location).Disjoint (right.listing.map location) := by
  have distinct : (Node.children place).Pairwise fun left right =>
      left.location ≠ right.location := by
    rcases place.location_children with ⟨count, locations⟩
    rw [← List.pairwise_map (f := location), locations]
    exact List.nodup_range.map fun first second same => (List.cons.inj same).1
  refine distinct.imp_of_mem fun {left right} isLeft isRight different => ?_
  rw [List.disjoint_left]
  intro shared inLeft inRight
  rcases List.mem_map.mp inLeft with ⟨first, isFirst, rfl⟩
  rcases List.mem_map.mp inRight with ⟨second, isSecond, same⟩
  have leftSuffix := location_listing left first isFirst
  have rightSuffix := location_listing right second isSecond
  rw [same] at rightSuffix
  have sameLength : left.location.length = right.location.length := by
    rcases location_child isLeft with ⟨_, isLeftLocation⟩
    rcases location_child isRight with ⟨_, isRightLocation⟩
    rw [isLeftLocation, isRightLocation, List.length_cons, List.length_cons]
  have suffix := List.suffix_of_suffix_length_le leftSuffix rightSuffix sameLength.le
  exact different (suffix.eq_of_length sameLength)

theorem listing_nodup (place : Place) : (place.listing.map location).Nodup := by
  induction place using listing.induct with
  | case1 place induction =>
      rw [listing_eq, List.map_cons, List.nodup_cons, List.map_flatMap, List.nodup_flatMap]
      refine ⟨fun there => ?_, fun child isChild => induction ⟨child, isChild⟩,
        place.listing_children_disjoint⟩
      rcases List.mem_flatMap.mp there with ⟨child, isChild, below⟩
      rcases List.mem_map.mp below with ⟨found, isFound, same⟩
      rcases location_child isChild with ⟨position, isLocation⟩
      have shorter := (location_listing child found isFound).length_le
      rw [isLocation, same, List.length_cons] at shorter
      omega

/-- Places whose listings, one after the other, are part of the listing of a tree: they are part
of it themselves, and what is listed below one of them is not listed below another. -/
theorem apart_of_listing {root : Place} {places : List Place}
    (listed : (places.flatMap listing).Sublist root.listing) :
    places.Sublist root.listing ∧ places.Pairwise fun left right =>
      left.location ≠ right.location ∧ ¬left.Above right ∧ ¬right.Above left := by
  constructor
  · have selves : (places.flatMap fun place => [place]).Sublist (places.flatMap listing) :=
      .flatMap_right places fun place _ => List.singleton_sublist.mpr place.self_mem_listing
    rw [List.flatMap_singleton'] at selves
    exact selves.trans listed
  · have nodup := root.listing_nodup.sublist (listed.map location)
    rw [List.map_flatMap, List.nodup_flatMap] at nodup
    refine nodup.2.imp fun {left right} disjoint => ?_
    have self (place : Place) : place.location ∈ place.listing.map location :=
      List.mem_map_of_mem place.self_mem_listing
    refine ⟨fun same => ?_, fun above => ?_, fun above => ?_⟩
    · exact disjoint (self left) (same ▸ self right)
    · exact disjoint (((listing_above above).map location).subset (self right)) (self right)
    · exact disjoint (self left) (((listing_above above).map location).subset (self left))

end Place

/-! ## The places below candidates -/

namespace Candidate

def listing : Candidate Place → List Place
  | .node visit => visit.node.listing
  | .group members => members.flatMap fun member => member.node.listing

theorem listing_nodes (visits : List (Visit Place)) :
    (visits.map Candidate.node).flatMap listing = visits.flatMap fun visit => visit.node.listing :=
  List.flatMap_map ..

theorem listing_flatten (candidates : List (Candidate Place)) :
    ((flatten candidates).flatMap fun visit => visit.node.listing) =
      candidates.flatMap listing := by
  rw [flatten, List.flatMap_assoc]
  refine List.flatMap_congr fun candidate _ => ?_
  cases candidate with
  | node visit => exact List.flatMap_singleton _ _
  | group members => rfl

theorem listing_visitChildren (visit : Visit Place) :
    (visit.children.flatMap fun child => child.node.listing).Sublist visit.node.listing := by
  rw [Visit.children, List.flatMap_map]
  exact visit.node.listing_children

theorem listing_tested (fanOut : Bool) (candidate : Candidate Place) :
    ((candidate.tested fanOut).flatMap fun visit => visit.node.listing).Sublist
      candidate.listing := by
  cases candidate with
  | group members => exact .refl _
  | node visit =>
      unfold tested
      dsimp only
      split
      next => exact listing_visitChildren visit
      next =>
        rw [List.flatMap_singleton]
        exact .refl _

theorem listing_atIndex {position : Int} {candidate found : Candidate Place}
    (isFound : candidate.atIndex? position = some found) :
    found.listing.Sublist candidate.listing := by
  rcases atIndex?_tested isFound with ⟨visit, there, rfl⟩
  have part := sublist_flatMap_of_mem there fun visit => visit.node.listing
  exact part.trans (listing_tested false candidate)

theorem listing_slice {start stop : Option Int} {candidate found : Candidate Place}
    (isFound : candidate.slice? start stop = some found) :
    found.listing.Sublist candidate.listing := by
  rw [slice?_tested isFound]
  have part := sliceOf_sublist start stop (candidate.tested false)
  exact (part.flatMap _).trans (listing_tested false candidate)

theorem listing_filterMap {α : Type} {items : List α} {change : α → Option (Candidate Place)}
    {source : α → List Place}
    (each : ∀ item ∈ items, ∀ found, change item = some found →
      found.listing.Sublist (source item)) :
    ((items.filterMap change).flatMap listing).Sublist (items.flatMap source) := by
  rw [List.filterMap_eq_flatMap_toList, List.flatMap_assoc]
  refine .flatMap_right items fun item there => ?_
  cases isFound : change item with
  | none => exact List.nil_sublist _
  | some found =>
      rw [Option.toList_some, List.flatMap_singleton]
      exact each item there found isFound

end Candidate

/-! ## Steps -/

abbrev ListsWithin (root : Place) (found : Traced (List (Candidate Place))) : Prop :=
  Ends (fun candidates => (candidates.flatMap Candidate.listing).Sublist root.listing)
    (fun _ => False) found.outcome

section Steps

variable (context : Context) {root : Place} {candidates : List (Candidate Place)}
  (listed : (candidates.flatMap Candidate.listing).Sublist root.listing)

include listed

theorem Candidate.lists_indexed (position : Int) :
    ((candidates.filterMap (·.atIndex? position)).flatMap listing).Sublist root.listing :=
  (listing_filterMap fun _ _ _ isFound => listing_atIndex isFound).trans listed

theorem Candidate.lists_sliced (start stop : Option Int) :
    ((candidates.filterMap (·.slice? start stop)).flatMap listing).Sublist root.listing :=
  (listing_filterMap fun _ _ _ isFound => listing_slice isFound).trans listed

theorem Selector.listsWithin {selector : Selector} (isLocal : selector.isLocal = true) :
    ListsWithin root (selector.apply context candidates) := by
  have flattened := listed
  rw [← Candidate.listing_flatten] at flattened
  cases selector with
  | current => exact listed
  | index position => exact Candidate.lists_indexed listed position
  | slice start stop => exact Candidate.lists_sliced listed start stop
  | field name =>
      refine (Candidate.listing_filterMap fun visit _ found isFound => ?_).trans flattened
      rcases Option.map_eq_some_iff.mp isFound with ⟨member, isMember, rfl⟩
      rcases Visit.field?_mem isMember with ⟨node, isChild, rfl⟩
      exact Place.listing_child isChild
  | wildcard =>
      refine List.Sublist.trans ?_ flattened
      rw [List.flatMap_assoc]
      refine .flatMap_right _ fun visit _ => ?_
      rw [Candidate.listing_nodes]
      exact Candidate.listing_visitChildren visit
  | recursive | parent => cases isLocal

theorem Predicate.listsWithin (fanOut : Bool) (predicate : Predicate) :
    ListsWithin root (predicate.apply context fanOut candidates) := by
  cases predicate with
  | index position => exact Candidate.lists_indexed listed position
  | slice start stop => exact Candidate.lists_sliced listed start stop
  | filter condition =>
      rw [ListsWithin, Predicate.apply, Traced.outcome_bind, filter_places, ok_bind]
      show (List.flatMap _ (List.map _ _)).Sublist _
      rw [Candidate.listing_nodes]
      have tested : ((candidates.flatMap (·.tested fanOut)).flatMap
          fun visit => visit.node.listing).Sublist root.listing := by
        rw [List.flatMap_assoc]
        exact (List.Sublist.flatMap_right _ fun candidate _ =>
          candidate.listing_tested fanOut).trans listed
      exact (List.filter_sublist.flatMap _).trans tested

theorem Step.listsWithin {step : Step} (isLocal : step.isLocal = true) :
    ListsWithin root (step.apply context candidates) := by
  rw [ListsWithin, Step.apply, Traced.outcome_bind]
  refine (Selector.listsWithin context listed isLocal).bind fun selected listedSelected => ?_
  rw [Traced.outcome_foldlM]
  refine Ends.foldlM listedSelected fun refined listedRefined predicate _ => ?_
  exact predicate.listsWithin context listedRefined step.selector.isFanOut

end Steps

theorem Query.listsWithin (context : Context) (place : Place) {steps : List Step}
    (isLocal : ∀ step ∈ steps, step.isLocal = true) :
    ListsWithin place (Query.candidates ⟨steps⟩ context place) := by
  rw [ListsWithin, Query.candidates, Traced.outcome_foldlM]
  refine Ends.foldlM ?_ fun candidates listed step there => ?_
  · rw [List.flatMap_singleton]
    exact .refl _
  · exact Step.listsWithin context listed (isLocal step there)

/-- A run of a query without descents and parents answers after every step, and the nodes of its
candidates are then places of the tree in document order, no place twice and none above another. -/
theorem candidates_in_document_order {query : Query} (context : Context) (value : Json)
    (isLocal : ∀ step ∈ query.steps, step.isLocal = true) :
    ∀ done, done <+: query.steps → ∃ candidates,
      (Query.candidates ⟨done⟩ context (Place.root value)).outcome = .ok candidates ∧
      let nodes := (Candidate.flatten candidates).map Visit.node
      nodes.Sublist (Place.root value).listing ∧
      nodes.Pairwise fun left right => Node.same left right = false ∧
        ¬left.Above right ∧ ¬right.Above left := by
  intro done isPrefix
  have run := Query.listsWithin context (Place.root value) fun step there =>
    isLocal step (isPrefix.subset there)
  rcases run.exists_ok with ⟨candidates, isFound, listed⟩
  rw [← Candidate.listing_flatten, ← List.flatMap_map] at listed
  rcases Place.apart_of_listing listed with ⟨part, apart⟩
  refine ⟨candidates, isFound, part, apart.imp fun isApart => ⟨?_, isApart.2⟩⟩
  exact beq_eq_false_iff_ne.mpr isApart.1

theorem candidates_in_document_order_depths :
    let value := Json.object [("a", .array [.null, .bool true]), ("b", .number (.integer 1))]
    let query : Query := ⟨[⟨.wildcard, []⟩, ⟨.current, [.filter (.literal (.bool true))]⟩]⟩
    ∃ candidates, (query.candidates ⟨.builtIn, 0⟩ (Place.root value)).outcome = .ok candidates ∧
      let nodes := (Candidate.flatten candidates).map Visit.node
      nodes.map Place.location = [[0, 0], [1, 0], [1]] ∧
      nodes.Sublist (Place.root value).listing ∧
      nodes.Pairwise fun left right => Node.same left right = false ∧
        ¬left.Above right ∧ ¬right.Above left := by
  intro value query
  have isLocal : ∀ step ∈ query.steps, step.isLocal = true := by decide
  rcases candidates_in_document_order ⟨.builtIn, 0⟩ value isLocal _ List.prefix_rfl with
    ⟨candidates, isFound, inOrder⟩
  refine ⟨candidates, isFound, ?_, inOrder⟩
  cases isFound
  rfl

end JsonQuery
