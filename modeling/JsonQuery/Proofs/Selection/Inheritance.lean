import JsonQuery.Proofs.Json.Nesting
import JsonQuery.Proofs.Outcome
import JsonQuery.Proofs.Selection.Answering
import JsonQuery.Proofs.Source.Places

/-!
What a tree passes on to the values that a query selects from it: they are parts of it, or arrays
of neighbours in one of its arrays. A query on a tree fails only where it descends into one that
nests too deeply.
-/

namespace JsonQuery

/-- A property that a value has only if all parts of it have it. -/
structure Json.Inherited (holds : Json → Prop) : Prop where
  element {elements : List Json} : holds (.array elements) → ∀ element ∈ elements, holds element
  member {members : List (String × Json)} : holds (.object members) →
    ∀ member ∈ members, holds member.2
  part {elements some : List Json} : holds (.array elements) → some.Sublist elements →
    holds (.array some)

theorem Json.inherited_nestsWithin (levels : Nat) : Inherited (NestsWithin levels) := by
  cases levels with
  | zero => exact ⟨nofun, nofun, nofun⟩
  | succ levels =>
      refine ⟨fun within element there => (within element there).succ,
        fun within member there => (within member there).succ, ?_⟩
      exact fun within part element there => within element (part.subset there)

variable {holds : Json → Prop}

/-! ## Places -/

namespace Place

theorem value_elements {place : Place} {elements : List Json}
    (isArray : place.value = .array elements) : place.elements.map Place.value = elements := by
  rw [Place.elements, isArray]
  exact List.ext_getElem (by simp) fun position _ _ => by simp [child]

/-- The value of a child is an element or a member of the value. -/
theorem value_child {place child : Place} (there : child ∈ Node.children place) :
    (∃ elements, place.value = .array elements ∧ child.value ∈ elements) ∨
      ∃ members name, place.value = .object members ∧ (name, child.value) ∈ members := by
  change child ∈ place.children at there
  rcases place with ⟨value, location⟩
  cases value with
  | array elements =>
      have isArray : (Place.mk (.array elements) location).value = .array elements := rfl
      refine .inl ⟨elements, rfl, ?_⟩
      rw [← value_elements isArray]
      exact List.mem_map_of_mem there
  | object members =>
      rcases List.mem_map.mp there with ⟨member, inMembers, rfl⟩
      rcases List.mem_mapIdx.mp inMembers with ⟨position, bound, rfl⟩
      exact .inr ⟨members, _, rfl, List.getElem_mem bound⟩
  | null | bool | number | string => cases there

theorem sizeOf_child {place child : Place} (there : child ∈ Node.children place) :
    sizeOf child.value < sizeOf place.value := by
  rcases value_child there with
    ⟨elements, isArray, inElements⟩ | ⟨members, name, isObject, inMembers⟩
  · have smaller := List.sizeOf_lt_of_mem inElements
    rw [isArray, Json.array.sizeOf_spec]
    omega
  · have smaller := List.sizeOf_lt_of_mem inMembers
    rw [Prod.mk.sizeOf_spec] at smaller
    rw [isObject, Json.object.sizeOf_spec]
    omega

theorem child_inherits (inherited : Json.Inherited holds) {place child : Place}
    (holdsHere : holds place.value) (there : child ∈ Node.children place) : holds child.value := by
  rcases value_child there with
    ⟨elements, isArray, inElements⟩ | ⟨members, name, isObject, inMembers⟩
  · exact inherited.element (isArray ▸ holdsHere) _ inElements
  · exact inherited.member (isObject ▸ holdsHere) _ inMembers

/-- What has a child nests, and a child nests less. -/
theorem child_nestsWithin {place child : Place} (there : child ∈ Node.children place)
    {depth : Nat} (within : place.value.NestsWithin depth) :
    ∃ less, depth = less + 1 ∧ child.value.NestsWithin less := by
  rcases value_child there with ⟨_, isArray, inElements⟩ | ⟨_, _, isObject, inMembers⟩
  · rw [isArray] at within
    rcases within.elements with ⟨less, rfl, each⟩
    exact ⟨less, rfl, each _ inElements⟩
  · rw [isObject] at within
    rcases within.members with ⟨less, rfl, each⟩
    exact ⟨less, rfl, each _ inMembers⟩

theorem element_mem {place found : Place} {position : Nat}
    (isElement : Node.element place position = some found) : found ∈ Node.children place := by
  have inElements : found ∈ place.elements := List.mem_of_getElem? isElement
  by_cases isArray : place.value.kind = .array
  · show found ∈ place.children
    rwa [children_of_array isArray]
  · rw [elements_of_not_array isArray] at inElements
    cases inElements

theorem field_mem {place found : Place} {name : String}
    (isMember : Node.field place name = some found) : found ∈ Node.children place := by
  have inMembers : (name, found) ∈ place.members := Json.mem_of_lookup isMember
  by_cases isObject : place.value.kind = .object
  · show found ∈ place.children
    rw [children_of_not_array (isObject ▸ nofun)]
    exact List.mem_map_of_mem inMembers
  · rw [members_of_not_object isObject] at inMembers
    cases inMembers

end Place

/-! ## Visits and candidates -/

/-- The value of the node that is visited and those on the way to it have a property. -/
def Visit.Within (holds : Json → Prop) (visit : Visit Place) : Prop :=
  holds visit.node.value ∧ ∀ ancestor ∈ visit.ancestors, holds ancestor.value

def Candidate.Within (holds : Json → Prop) : Candidate Place → Prop
  | .node visit => visit.Within holds
  | .group members => (∀ member ∈ members, member.Within holds) ∧
      holds (.array (members.map fun member => member.node.value))

namespace Visit

variable {visit found : Visit Place}

theorem values_children {elements : List Json}
    (isArray : visit.node.value = .array elements) :
    visit.children.map (fun member => member.node.value) = elements := by
  have places : visit.node.children = visit.node.elements :=
    Place.children_of_array (congrArg Json.kind isArray)
  show (visit.node.children.map visit.child).map (fun member => member.node.value) = elements
  rw [List.map_map, places]
  exact Place.value_elements isArray

/-- A member or element that is found by a name is a child. -/
theorem field?_mem {name : String} (isField : visit.field? name = some found) :
    ∃ node ∈ Node.children visit.node, found = visit.child node := by
  unfold field? at isField
  split at isField
  next =>
    rcases Option.map_eq_some_iff.mp isField with ⟨node, isMember, rfl⟩
    exact ⟨node, Place.field_mem isMember, rfl⟩
  next =>
    rcases Option.bind_eq_some_iff.mp isField with ⟨position, _, isFound⟩
    rcases Option.map_eq_some_iff.mp isFound with ⟨node, isElement, rfl⟩
    exact ⟨node, Place.element_mem isElement, rfl⟩
  next => cases isField

theorem Within.child (inherited : Json.Inherited holds) (within : visit.Within holds)
    {node : Place} (there : node ∈ Node.children visit.node) : (visit.child node).Within holds :=
  ⟨Place.child_inherits inherited within.1 there, List.forall_mem_cons.mpr within⟩

theorem Within.children (inherited : Json.Inherited holds) (within : visit.Within holds) :
    ∀ child ∈ visit.children, child.Within holds :=
  List.forall_mem_map.mpr fun _ there => within.child inherited there

theorem Within.parent (within : visit.Within holds) (isParent : visit.parent? = some found) :
    found.Within holds := by
  unfold parent? at isParent
  split at isParent
  next => cases isParent
  next node ancestors isAncestors =>
    cases isParent
    have above := within.2
    rw [isAncestors] at above
    exact List.forall_mem_cons.mp above

theorem Within.field (inherited : Json.Inherited holds) (within : visit.Within holds)
    {name : String} (isField : visit.field? name = some found) : found.Within holds := by
  rcases field?_mem isField with ⟨node, there, rfl⟩
  exact within.child inherited there

theorem within_addTo {visits : List (Visit Place)} (within : visit.Within holds)
    (others : ∀ other ∈ visits, other.Within holds) :
    ∀ other ∈ visit.addTo visits, other.Within holds := by
  rw [addTo]
  split
  next => exact others
  next => exact List.forall_mem_append.mpr ⟨others, List.forall_mem_singleton.mpr within⟩

/-- A descent finds values of the tree, and comes to an end if the tree nests less deeply than
the descent may go. -/
theorem ends_descend (inherited : Json.Inherited holds) (context : Context) (name : String)
    {errors : QueryError → Prop} : ∀ (levels : Nat) {visit : Visit Place}
      {visits : List (Visit Place)}, visit.Within holds → (∀ other ∈ visits, other.Within holds) →
        ((∀ depth, depth < levels → ¬visit.node.value.NestsWithin depth) →
          errors (.tooDeep context.maxDepth)) →
        Ends (fun found => ∀ other ∈ found, other.Within holds) errors
          (visit.descend context name levels visits).outcome := by
  intro levels
  induction levels with
  | zero => exact fun _ _ deep => deep nofun
  | succ levels induction =>
      intro visit visits within others deep
      rw [descend, Traced.outcome_foldlM]
      refine Ends.foldlM ?_ fun done holdsDone child there => ?_
      · split
        next member isMember =>
          split at isMember
          next =>
            rcases Option.map_eq_some_iff.mp isMember with ⟨node, isField, rfl⟩
            exact within_addTo (within.child inherited (Place.field_mem isField)) others
          next => cases isMember
        next => exact others
      · refine induction (within.children inherited child there) holdsDone fun deepChild => ?_
        refine deep fun depth less nests => ?_
        rcases List.mem_map.mp there with ⟨node, isChild, rfl⟩
        rcases Place.child_nestsWithin isChild nests with ⟨less', rfl, nestsChild⟩
        exact deepChild less' (Nat.lt_of_succ_lt_succ less) nestsChild

end Visit

namespace Candidate

variable {candidate : Candidate Place} {candidates : List (Candidate Place)}

theorem Within.value (within : candidate.Within holds) : holds candidate.value := by
  cases candidate with
  | node visit => exact within.1
  | group members => exact within.2

theorem within_nodes {visits : List (Visit Place)}
    (each : ∀ visit ∈ visits, visit.Within holds) :
    ∀ candidate ∈ visits.map Candidate.node, candidate.Within holds :=
  List.forall_mem_map.mpr each

theorem within_flatten (each : ∀ candidate ∈ candidates, candidate.Within holds) :
    ∀ visit ∈ flatten candidates, visit.Within holds := by
  intro visit there
  rcases List.mem_flatMap.mp there with ⟨candidate, inCandidates, inVisits⟩
  cases candidate with
  | node found =>
      cases List.mem_singleton.mp inVisits
      exact each _ inCandidates
  | group members => exact (each _ inCandidates).1 visit inVisits

theorem sliceOf_sublist {α : Type} (start stop : Option Int) (items : List α) :
    (sliceOf start stop items).Sublist items :=
  (List.take_sublist _ _).trans (List.drop_sublist _ _)

theorem within_sliceOf (inherited : Json.Inherited holds) {members : List (Visit Place)}
    (within : Within holds (.group members)) (start stop : Option Int) :
    Within holds (.group (sliceOf start stop members)) := by
  have sublist := sliceOf_sublist start stop members
  exact ⟨fun member there => within.1 member (sublist.subset there),
    inherited.part within.2 (sublist.map _)⟩

/-- All elements of an array, taken together. -/
theorem within_elements (inherited : Json.Inherited holds) {visit : Visit Place}
    (within : visit.Within holds) (isArray : Node.kind visit.node = .array) :
    Within holds (.group visit.children) := by
  refine ⟨within.children inherited, ?_⟩
  have holdsHere := within.1
  rcases visit with ⟨⟨value, location⟩, ancestors⟩
  cases value with
  | array elements =>
      rw [Visit.values_children rfl]
      exact holdsHere
  | null | bool | number | string | object => cases isArray

theorem tested_array {visit : Visit Place} (isArray : Node.kind visit.node = .array) :
    (Candidate.node visit).tested false = visit.children := by
  simp only [tested, isArray]

/-- A position leads to one of the visits that a filter would test. -/
theorem atIndex?_tested {position : Int} {found : Candidate Place}
    (isFound : candidate.atIndex? position = some found) :
    ∃ visit ∈ candidate.tested false, found = .node visit := by
  cases candidate with
  | group members =>
      simp only [atIndex?, Option.bind_eq_bind, Option.bind_eq_some_iff, Option.some.injEq]
        at isFound
      rcases isFound with ⟨index, _, member, isMember, rfl⟩
      exact ⟨member, List.mem_of_getElem? isMember, rfl⟩
  | node visit =>
      rw [atIndex?] at isFound
      split at isFound
      next isArray =>
        simp only [Option.bind_eq_bind, Option.bind_eq_some_iff, Option.some.injEq] at isFound
        rcases isFound with ⟨index, _, element, isElement, rfl⟩
        refine ⟨visit.child element, ?_, rfl⟩
        rw [tested_array isArray]
        exact List.mem_map_of_mem (Place.element_mem isElement)
      next => cases isFound

theorem slice?_tested {start stop : Option Int} {found : Candidate Place}
    (isFound : candidate.slice? start stop = some found) :
    found = .group (sliceOf start stop (candidate.tested false)) := by
  cases candidate with
  | group members => exact (Option.some.inj isFound).symm
  | node visit =>
      rw [slice?] at isFound
      split at isFound
      next isArray =>
        rw [tested_array isArray]
        exact (Option.some.inj isFound).symm
      next => cases isFound

theorem Within.tested (inherited : Json.Inherited holds) (within : candidate.Within holds)
    (fanOut : Bool) : ∀ visit ∈ candidate.tested fanOut, visit.Within holds := by
  cases candidate with
  | group members => exact within.1
  | node visit =>
      unfold Candidate.tested
      dsimp only
      split
      next => exact Visit.Within.children inherited within
      next => exact List.forall_mem_singleton.mpr within

theorem Within.atIndex (inherited : Json.Inherited holds) (within : candidate.Within holds)
    {position : Int} {found : Candidate Place}
    (isFound : candidate.atIndex? position = some found) : found.Within holds := by
  rcases atIndex?_tested isFound with ⟨visit, there, rfl⟩
  exact within.tested inherited false visit there

theorem Within.slice (inherited : Json.Inherited holds) (within : candidate.Within holds)
    {start stop : Option Int} {found : Candidate Place}
    (isFound : candidate.slice? start stop = some found) : found.Within holds := by
  cases candidate with
  | group members =>
      cases isFound
      exact within_sliceOf inherited within start stop
  | node visit =>
      rw [slice?] at isFound
      split at isFound
      next isArray =>
        cases isFound
        exact within_sliceOf inherited (within_elements inherited within isArray) start stop
      next => cases isFound

end Candidate

/-! ## Steps -/

/-- What is found lies within a tree, or an error of a given kind was met. -/
abbrev Finds (holds : Json → Prop) (errors : QueryError → Prop)
    (found : Traced (List (Candidate Place))) : Prop :=
  Ends (fun candidates => ∀ candidate ∈ candidates, candidate.Within holds) errors found.outcome

theorem finds_filterMap {α : Type} {errors : QueryError → Prop} {items : List α}
    {change : α → Option (Candidate Place)}
    (each : ∀ item ∈ items, ∀ found, change item = some found → found.Within holds) :
    Finds holds errors (pure (items.filterMap change)) := by
  intro found there
  rcases List.mem_filterMap.mp there with ⟨item, inItems, isFound⟩
  exact each item inItems found isFound

theorem finds_nodes {errors : QueryError → Prop} {visits : Traced (List (Visit Place))}
    (each : Ends (fun found => ∀ visit ∈ found, visit.Within holds) errors visits.outcome) :
    Finds holds errors (do return (← visits).map Candidate.node) := by
  rw [Finds, Traced.outcome_bind]
  exact each.bind fun found within => Candidate.within_nodes within

section Steps

variable (inherited : Json.Inherited holds) {context : Context} {errors : QueryError → Prop}
  (deep : ∀ value, holds value → ¬value.NestsWithin context.maxDepth →
    errors (.tooDeep context.maxDepth))
  {candidates : List (Candidate Place)}
  (within : ∀ candidate ∈ candidates, candidate.Within holds)

include inherited within

include deep in
theorem Selector.finds (selector : Selector) :
    Finds holds errors (selector.apply context candidates) := by
  have flattened := Candidate.within_flatten within
  cases selector with
  | current => exact within
  | index position =>
      exact finds_filterMap fun candidate there _ => (within candidate there).atIndex inherited
  | slice start stop =>
      exact finds_filterMap fun candidate there _ => (within candidate there).slice inherited
  | field name =>
      refine finds_filterMap fun visit there found isFound => ?_
      rcases Option.map_eq_some_iff.mp isFound with ⟨member, isMember, rfl⟩
      exact (flattened visit there).field inherited isMember
  | wildcard =>
      intro found there
      rcases List.mem_flatMap.mp there with ⟨visit, inVisits, inChildren⟩
      exact Candidate.within_nodes ((flattened visit inVisits).children inherited) found inChildren
  | recursive name =>
      refine finds_nodes ?_
      rw [Traced.outcome_foldlM]
      refine Ends.foldlM (List.forall_mem_nil _) fun done holdsDone visit there => ?_
      refine Visit.ends_descend inherited context name _ (flattened visit there) holdsDone ?_
      exact fun tooDeep => deep _ (flattened visit there).1 (tooDeep _ (Nat.lt_succ_self _))
  | parent =>
      refine Candidate.within_nodes ?_
      refine List.foldlRecOn (motive := fun found : List (Visit Place) =>
        ∀ visit ∈ found, visit.Within holds) _ _ (List.forall_mem_nil _)
        fun done holdsDone parent there => ?_
      rcases List.mem_filterMap.mp there with ⟨visit, inVisits, isParent⟩
      exact Visit.within_addTo ((flattened visit inVisits).parent isParent) holdsDone

theorem Predicate.finds (fanOut : Bool) (predicate : Predicate) :
    Finds holds errors (predicate.apply context fanOut candidates) := by
  cases predicate with
  | index position =>
      exact finds_filterMap fun candidate there _ => (within candidate there).atIndex inherited
  | slice start stop =>
      exact finds_filterMap fun candidate there _ => (within candidate there).slice inherited
  | filter condition =>
      refine finds_nodes ?_
      rw [filter_places]
      intro visit there
      rcases List.mem_flatMap.mp (List.mem_filter.mp there).1 with
        ⟨candidate, inCandidates, isTested⟩
      exact (within candidate inCandidates).tested inherited fanOut visit isTested

include deep in
theorem Step.finds (step : Step) : Finds holds errors (step.apply context candidates) := by
  rw [Finds, Step.apply, Traced.outcome_bind]
  refine (step.selector.finds inherited deep within).bind fun selected withinSelected => ?_
  rw [Traced.outcome_foldlM]
  refine Ends.foldlM withinSelected fun refined withinRefined predicate _ => ?_
  exact predicate.finds inherited withinRefined step.selector.isFanOut

end Steps

theorem Query.finds (inherited : Json.Inherited holds) {context : Context}
    {errors : QueryError → Prop}
    (deep : ∀ value, holds value → ¬value.NestsWithin context.maxDepth →
      errors (.tooDeep context.maxDepth)) {value : Json} (holdsHere : holds value) (query : Query) :
    Finds holds errors (query.candidates context (Place.root value)) := by
  have root : Candidate.Within holds (.node ⟨Place.root value, []⟩) :=
    ⟨holdsHere, List.forall_mem_nil _⟩
  rw [Finds, Query.candidates, Traced.outcome_foldlM]
  refine Ends.foldlM (List.forall_mem_singleton.mpr root) fun done within step _ => ?_
  exact step.finds inherited deep within

/-- A query selects from a value what has every property that the value passes on. It can fail
only with going too deep, and only in a value that nests deeper than a descent may go. -/
theorem Json.ends_selection (inherited : Inherited holds) {context : Context}
    {errors : QueryError → Prop}
    (deep : ∀ value, holds value → ¬value.NestsWithin context.maxDepth →
      errors (.tooDeep context.maxDepth)) {value : Json} (holdsHere : holds value) (query : Query) :
    Ends (fun found => ∀ value ∈ found, holds value) errors (value.selection query context) := by
  rw [selection_eq]
  exact (query.finds inherited deep holdsHere).map fun candidates within =>
    List.forall_mem_map.mpr fun candidate there => (within candidate there).value

end JsonQuery
