import JsonQuery.Proofs.Selection.Answering
import JsonQuery.Proofs.Source.Places
import Mathlib

/-!
Steps that neither descend nor go to a parent. On a decoded tree such a step always has an answer,
it makes of each candidate what it makes of it alone, and it does not see where in the tree a
candidate stands.
-/

namespace JsonQuery

/-- A selector that looks at one candidate at a time, and only below it. -/
def Selector.isLocal : Selector → Bool
  | .recursive _ | .parent => false
  | _ => true

def Step.isLocal (step : Step) : Bool :=
  step.selector.isLocal

/-! ## Places below a visit -/

namespace Place

/-- A place of a tree that itself stands at a location of another one. -/
def below (place : Place) (location : List Nat) : Place :=
  ⟨place.value, place.location ++ location⟩

variable (place : Place) (location : List Nat)

theorem elements_below :
    (place.below location).elements = place.elements.map (·.below location) := by
  simp only [elements, below]
  cases place.value with
  | array elements =>
      simp only [List.mapIdx_eq_zipIdx_map, List.map_map]
      rfl
  | null | bool | number | string | object => rfl

theorem members_below : (place.below location).members =
    place.members.map fun member => (member.1, member.2.below location) := by
  simp only [members, below]
  cases place.value with
  | object members =>
      simp only [List.mapIdx_eq_zipIdx_map, List.map_map]
      rfl
  | null | bool | number | string | array => rfl

theorem children_below :
    Node.children (place.below location) = (Node.children place).map (·.below location) := by
  show (place.below location).children = place.children.map (·.below location)
  by_cases isArray : place.value.kind = .array
  · have isArrayBelow : (place.below location).value.kind = .array := isArray
    rw [children_of_array isArray, children_of_array isArrayBelow, elements_below]
  · have notArrayBelow : (place.below location).value.kind ≠ .array := isArray
    rw [children_of_not_array isArray, children_of_not_array notArrayBelow, members_below,
      List.map_map, List.map_map]
    rfl

theorem element_below (position : Nat) :
    Node.element (place.below location) position =
      (Node.element place position).map (·.below location) := by
  show (place.below location).elements[position]? = place.elements[position]?.map _
  rw [elements_below, List.getElem?_map]

theorem length_below : Node.length (place.below location) = Node.length place := by
  show (Node.children (place.below location)).length = (Node.children place).length
  rw [children_below, List.length_map]

theorem field_below (name : String) :
    Node.field (place.below location) name = (Node.field place name).map (·.below location) := by
  show (place.below location).members.lookup name = (place.members.lookup name).map _
  rw [members_below]
  induction place.members with
  | nil => rfl
  | cons member members induction =>
      rw [List.map_cons, Json.lookup_member_cons, Json.lookup_member_cons, induction]
      split <;> rfl

/-- A filter does not see what stands above. -/
theorem holds_below (context : Context) (condition : Expression) :
    condition.holds context (place.below location) = condition.holds context place := by
  have similar : Similar fun left right : Place => left = right.below location := by
    refine ⟨?_, ?_, ?_, ?_, ?_, ?_⟩
    · rintro left right rfl
      rfl
    · rintro left right name rfl
      rw [field_below]
      cases Node.field right name with
      | none => exact .none
      | some found => exact .some rfl
    · rintro left right position rfl
      rw [element_below]
      cases Node.element right position with
      | none => exact .none
      | some found => exact .some rfl
    · rintro left right rfl _
      exact length_below right location
    · rintro left right position rfl notArray
      exact congrArg (·[position]?) (elements_of_not_array notArray)
    · rintro left right rfl
      exact ⟨right.value, rfl, rfl⟩
  have standsBelow : place.below location = place.below location := rfl
  rw [Expression.holds, Expression.holds, (similar.evaluate standsBelow context condition).eq]

end Place

namespace Visit

/-- A visit within a tree whose root has itself been visited. -/
def below (visit above : Visit Place) : Visit Place where
  node := visit.node.below above.node.location
  ancestors := visit.ancestors.map (·.below above.node.location) ++ above.ancestors

variable (visit above : Visit Place)

theorem children_below : (visit.below above).children = visit.children.map (·.below above) := by
  simp only [children, below, Place.children_below, List.map_map]
  rfl

theorem field?_below (name : String) :
    (visit.below above).field? name = (visit.field? name).map (·.below above) := by
  have kind : Node.kind (visit.below above).node = Node.kind visit.node := rfl
  rw [field?, field?, kind]
  cases Node.kind visit.node with
  | object =>
      simp only [below, Place.field_below, Option.map_map]
      rfl
  | array =>
      dsimp only
      cases Digits.readCount? name.toList with
      | none => rfl
      | some position =>
          simp only [below, Place.element_below, Option.map_map, Option.bind_some]
          rfl
  | null | bool | number | string => rfl

end Visit

namespace Candidate

def below (candidate : Candidate Place) (above : Visit Place) : Candidate Place :=
  match candidate with
  | .node visit => .node (visit.below above)
  | .group members => .group (members.map (·.below above))

variable (candidate : Candidate Place) (above : Visit Place)

theorem flatten_below :
    flatten [candidate.below above] = (flatten [candidate]).map (·.below above) := by
  cases candidate with
  | node visit => rfl
  | group members => simp only [flatten, below, List.flatMap_singleton]

theorem atIndex?_below (position : Int) :
    (candidate.below above).atIndex? position =
      (candidate.atIndex? position).map (·.below above) := by
  cases candidate with
  | group members =>
      simp only [below, atIndex?, List.length_map, List.getElem?_map]
      cases resolveIndex? position members.length with
      | none => rfl
      | some index => cases found : members[index]? <;> simp [found]
  | node visit =>
      have kind : Node.kind (visit.below above).node = Node.kind visit.node := rfl
      have length : Node.length (visit.below above).node = Node.length visit.node :=
        Place.length_below _ _
      have element (index : Nat) : Node.element (visit.below above).node index =
          (Node.element visit.node index).map (·.below above.node.location) :=
        Place.element_below _ _ index
      simp only [below, atIndex?, kind, length, element]
      cases Node.kind visit.node with
      | array =>
          dsimp only
          cases resolveIndex? position (Node.length visit.node) with
          | none => rfl
          | some index => cases found : Node.element visit.node index <;> simp [found]; rfl
      | null | bool | number | string | object => rfl

theorem slice?_below (start stop : Option Int) :
    (candidate.below above).slice? start stop =
      (candidate.slice? start stop).map (·.below above) := by
  cases candidate with
  | group members =>
      simp only [below, slice?, sliceOf_map]
      rfl
  | node visit =>
      have kind : Node.kind (visit.below above).node = Node.kind visit.node := rfl
      simp only [below, slice?, kind, Visit.children_below, sliceOf_map]
      cases Node.kind visit.node <;> rfl

theorem tested_below (fanOut : Bool) :
    (candidate.below above).tested fanOut = (candidate.tested fanOut).map (·.below above) := by
  cases candidate with
  | group members => rfl
  | node visit =>
      have kind : Node.kind (visit.below above).node = Node.kind visit.node := rfl
      simp only [below, tested, kind, Visit.children_below]
      cases fanOut with
      | true => rfl
      | false => cases Node.kind visit.node <;> rfl

theorem value_below : (candidate.below above).value = candidate.value := by
  cases candidate with
  | node visit => rfl
  | group members =>
      rw [below, value, List.map_map]
      rfl

end Candidate

/-! ## One candidate at a time -/

/-- What stands in a tree, and may so stand below a visit. -/
class Movable (α : Type) where
  below : α → Visit Place → α

instance : Movable (Visit Place) := ⟨Visit.below⟩

instance : Movable (Candidate Place) := ⟨Candidate.below⟩

/-- A computation on lists that has an answer: for each item what it gives for that item alone,
wherever that stands. -/
def Pointwise {α β : Type} [Movable α] [Movable β] (change : List α → Traced (List β)) : Prop :=
  ∃ image : α → List β, (∀ items, (change items).outcome = .ok (items.flatMap image)) ∧
    ∀ above item, image (Movable.below item above) =
      (image item).map (Movable.below · above)

namespace Pointwise

variable {α β γ : Type} [Movable α] [Movable β] [Movable γ]

theorem pure {change : List α → List β} (image : α → List β)
    (each : ∀ items, change items = items.flatMap image)
    (moves : ∀ above item, image (Movable.below item above) =
      (image item).map (Movable.below · above)) :
    Pointwise fun items => (Pure.pure (change items) : Traced (List β)) :=
  ⟨image, fun items => congrArg Except.ok (each items), moves⟩

theorem filterMap {change : α → Option β}
    (moves : ∀ above item, change (Movable.below item above) =
      (change item).map (Movable.below · above)) :
    Pointwise fun items => (Pure.pure (items.filterMap change) : Traced (List β)) := by
  refine pure _ (fun items => List.filterMap_eq_flatMap_toList change items) ?_
  intro above item
  rw [moves above item]
  cases change item <;> rfl

theorem bind {first : List α → Traced (List β)} {second : List β → Traced (List γ)}
    (here : Pointwise first) (later : Pointwise second) :
    Pointwise fun items => first items >>= second := by
  rcases here with ⟨image, each, moves⟩
  rcases later with ⟨further, eachFurther, movesFurther⟩
  refine ⟨fun item => (image item).flatMap further, ?_, ?_⟩
  · intro items
    rw [Traced.outcome_bind, each, ← List.flatMap_assoc]
    exact eachFurther (items.flatMap image)
  · intro above item
    show (image (Movable.below item above)).flatMap further = ((image item).flatMap further).map _
    rw [moves above item, List.flatMap_map, List.map_flatMap]
    simp only [movesFurther]

theorem foldlM {δ : Type} {step : List α → δ → Traced (List α)} (stages : List δ)
    (each : ∀ stage ∈ stages, Pointwise fun items => step items stage) :
    Pointwise fun items => stages.foldlM step items := by
  induction stages with
  | nil =>
      exact pure (fun item : α => [item]) (fun items => (List.flatMap_singleton' items).symm)
        fun _ _ => rfl
  | cons stage stages induction =>
      rw [List.forall_mem_cons] at each
      simp only [List.foldlM_cons]
      exact each.1.bind (induction each.2)

end Pointwise

namespace Candidate

theorem pointwise_flatten :
    Pointwise fun candidates : List (Candidate Place) => Pure.pure (flatten candidates) := by
  refine .pure (fun candidate => flatten [candidate]) ?_ fun above candidate =>
    candidate.flatten_below above
  intro candidates
  simp only [flatten, List.flatMap_singleton]

theorem pointwise_nodes :
    Pointwise fun visits : List (Visit Place) => Pure.pure (visits.map Candidate.node) :=
  .pure _ (fun _ => List.map_eq_flatMap) fun _ _ => rfl

end Candidate

theorem Selector.pointwise (context : Context) {selector : Selector}
    (isLocal : selector.isLocal = true) :
    Pointwise fun candidates : List (Candidate Place) => selector.apply context candidates := by
  cases selector with
  | current =>
      exact .pure (fun candidate => [candidate])
        (fun candidates => (List.flatMap_singleton' candidates).symm) fun _ _ => rfl
  | index position =>
      exact .filterMap fun above candidate => candidate.atIndex?_below above position
  | slice start stop =>
      exact .filterMap fun above candidate => candidate.slice?_below above start stop
  | field name =>
      refine Candidate.pointwise_flatten.bind (.filterMap fun above visit => ?_)
      show ((visit.below above).field? name).map Candidate.node = _
      rw [Visit.field?_below, Option.map_map, Option.map_map]
      rfl
  | wildcard =>
      refine Candidate.pointwise_flatten.bind (.pure _ (fun _ => rfl) fun above visit => ?_)
      show (visit.below above).children.map Candidate.node = _
      rw [Visit.children_below, List.map_map, List.map_map]
      rfl
  | recursive | parent => cases isLocal

theorem Predicate.pointwise (context : Context) (fanOut : Bool) (predicate : Predicate) :
    Pointwise fun candidates : List (Candidate Place) =>
      predicate.apply context fanOut candidates := by
  cases predicate with
  | index position =>
      exact .filterMap fun above candidate => candidate.atIndex?_below above position
  | slice start stop =>
      exact .filterMap fun above candidate => candidate.slice?_below above start stop
  | filter condition =>
      have tests : Pointwise fun candidates : List (Candidate Place) =>
          Pure.pure (candidates.flatMap (·.tested fanOut)) :=
        .pure _ (fun _ => rfl) fun above candidate => candidate.tested_below above fanOut
      have kept : Pointwise fun visits : List (Visit Place) =>
          Traced.filter (fun place => condition.evaluate context place) visits := by
        refine ⟨fun visit => if condition.holds context visit.node then [visit] else [], ?_, ?_⟩
        · intro visits
          rw [filter_places]
          congr
          induction visits with
          | nil => rfl
          | cons visit visits induction =>
              rw [List.filter_cons, List.flatMap_cons, ← induction]
              split <;> rfl
        · intro above visit
          have same := visit.node.holds_below above.node.location context condition
          show (if condition.holds context (visit.node.below _) then _ else _) =
            (if condition.holds context visit.node then [visit] else []).map _
          rw [same]
          split <;> rfl
      exact tests.bind (kept.bind Candidate.pointwise_nodes)

theorem Step.pointwise (context : Context) {step : Step} (isLocal : step.isLocal = true) :
    Pointwise fun candidates : List (Candidate Place) => step.apply context candidates :=
  (Selector.pointwise context isLocal).bind
    (.foldlM step.predicates fun predicate _ => predicate.pointwise context step.selector.isFanOut)

end JsonQuery
