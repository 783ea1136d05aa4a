import JsonQuery.Proofs.Selection.Simulation
import JsonQuery.Proofs.Source.Holding
import JsonQuery.Source.Tree

/-!
Spans and the places of the decoded tree. A span answers like any place that has the value of the
tree that the span holds, even where the text repeats names; the places have them merged.
-/

namespace JsonQuery

namespace Place

theorem lookup_mapIdx {α β : Type} (name : String) (forget : β → α) (members : List (String × α)) :
    ∀ change : Nat → α → β, (∀ position value, forget (change position value) = value) →
      ((members.mapIdx fun position member =>
        (member.1, change position member.2)).lookup name).map forget = members.lookup name := by
  induction members with
  | nil => intro change _; rfl
  | cons member members induction =>
      intro change forgets
      rw [List.mapIdx_cons, Json.lookup_member_cons, Json.lookup_member_cons]
      split
      · exact congrArg some (forgets 0 member.2)
      · exact induction (fun position => change (position + 1)) fun position => forgets _

/-- A member is found in the place of an object as it is found in the object. -/
theorem value_lookup {place : Place} {members : List (String × Json)}
    (isObject : place.value = .object members) (name : String) :
    (place.members.lookup name).map Place.value = members.lookup name := by
  rw [Place.members, isObject]
  exact lookup_mapIdx name Place.value members place.child fun _ _ => rfl

theorem members_of_not_object {place : Place} (notObject : place.value.kind ≠ .object) :
    place.members = [] := by
  rcases place with ⟨value, location⟩
  cases value with
  | object members => exact absurd rfl notObject
  | null | bool | number | string | array => rfl

theorem elements_of_not_array {place : Place} (notArray : place.value.kind ≠ .array) :
    place.elements = [] := by
  rcases place with ⟨value, location⟩
  cases value with
  | array elements => exact absurd rfl notArray
  | null | bool | number | string | object => rfl

theorem children_of_array {place : Place} (isArray : place.value.kind = .array) :
    place.children = place.elements := by
  rcases place with ⟨value, location⟩
  cases value <;> first | rfl | cases isArray

theorem length_of_array {place : Place} {elements : List Json}
    (isArray : place.value = .array elements) : Node.length place = elements.length := by
  show place.children.length = elements.length
  simp [children, Place.elements, isArray]

theorem children_of_not_array {place : Place} (notArray : place.value.kind ≠ .array) :
    place.children = place.members.map Prod.snd := by
  rcases place with ⟨value, location⟩
  cases value with
  | array elements => exact absurd rfl notArray
  | null | bool | number | string | object => rfl

end Place

namespace Span

/-- A span holds a tree, and a place has the value of that tree. -/
def Shows (span : Span) (place : Place) : Prop :=
  ∃ tree, span.Holds tree ∧ place.value = tree.merged

theorem members_of_not_object {span : Span} (notObject : span.kind ≠ .object) :
    span.members = [] := by
  rw [Span.members]
  cases isObject : span.kind with
  | object => exact absurd isObject notObject
  | null | bool | number | string | array => rfl

theorem elements_of_not_array {span : Span} (notArray : span.kind ≠ .array) :
    span.elements = [] := by
  rw [Span.elements]
  cases isArray : span.kind with
  | array => exact absurd isArray notArray
  | null | bool | number | string | object => rfl

theorem children_of_array {span : Span} (isArray : span.kind = .array) :
    span.children = span.elements := by
  rw [Span.children, isArray]

theorem children_of_not_array {span : Span} (notArray : span.kind ≠ .array) :
    span.children = span.members.map Prod.snd := by
  rw [Span.children]
  cases isArray : span.kind with
  | array => exact absurd isArray notArray
  | null | bool | number | string | object => rfl

namespace Shows

variable {span : Span} {place : Place}

theorem kind (shows : Shows span place) : span.kind = place.value.kind := by
  rcases shows with ⟨tree, held, same⟩
  rw [held.kind, same, Json.kind_merged]

theorem elements (shows : Shows span place) :
    List.Forall₂ Shows span.elements place.elements := by
  have sameKind := shows.kind
  rcases shows with ⟨tree, held, same⟩
  cases tree with
  | array trees =>
      rw [Json.merged, Json.mergedElements_eq_map] at same
      have values : List.Forall₂ (fun span value => ∃ tree, span.Holds tree ∧ value = tree.merged)
          span.elements (trees.map Json.merged) :=
        List.forall₂_map_right_iff.mpr (held.elements.1.imp fun _ tree held => ⟨tree, held, rfl⟩)
      rw [Place.elements, same]
      exact forall₂_mapIdx (fun _ _ _ _ _ shows => shows) values
  | null | bool | number | string | object =>
      have notArray : place.value.kind ≠ .array := by
        rw [same, Json.kind_merged]
        nofun
      rw [elements_of_not_array (sameKind ▸ notArray), Place.elements_of_not_array notArray]
      exact .nil

theorem field (shows : Shows span place) (name : String) :
    Option.Rel Shows (span.field? name) (place.members.lookup name) := by
  have sameKind := shows.kind
  rcases shows with ⟨tree, held, same⟩
  cases tree with
  | object trees =>
      have found := field?_rel held.members.1 name
      have looked : (place.members.lookup name).map Place.value =
          (Json.lastMember? name trees).map Json.merged := by
        rw [Json.merged, Json.mergedMembers_eq_map] at same
        rw [Place.value_lookup same, Json.lookup_mergeMembers, Json.lastMember?_map]
      generalize span.field? name = first, Json.lastMember? name trees = second at found looked
      cases found with
      | none =>
          rw [Option.map_none, Option.map_eq_none_iff] at looked
          rw [looked]
          exact .none
      | some held =>
          rcases Option.map_eq_some_iff.mp looked with ⟨member, there, sameMember⟩
          rw [there]
          exact .some ⟨_, held, sameMember⟩
  | null | bool | number | string | array =>
      have notObject : place.value.kind ≠ .object := by
        rw [same, Json.kind_merged]
        nofun
      rw [Span.field?, members_of_not_object (sameKind ▸ notObject),
        Place.members_of_not_object notObject]
      exact .none

end Shows

end Span

/-- No query that only goes to members and elements can tell a span from a place that it shows. -/
theorem similar_shows : Similar Span.Shows where
  kind shows := shows.kind
  field name shows := shows.field name
  element position shows := getElem?_rel shows.elements position
  length := by
    intro span place shows isArray
    have placeArray : place.value.kind = .array := shows.kind.symm.trans isArray
    show span.children.length = place.children.length
    rw [Span.children_of_array isArray, Place.children_of_array placeArray,
      shows.elements.length_eq]
  element_none := by
    intro span place position shows notArray
    show span.elements[position]? = none
    rw [Span.elements_of_not_array notArray, List.getElem?_nil]
  decode := by
    rintro span place ⟨tree, held, same⟩
    exact ⟨tree.merged, held.decode, congrArg Except.ok same⟩

/-! ## Elements as children -/

/-- The children of an array are its elements. -/
structure Node.Listed (ν : Type) [Node ν] : Prop where
  length (node : ν) : Node.length node = (Node.children node).length
  element {node : ν} (isArray : Node.kind node = .array) (index : Nat) :
    Node.element node index = (Node.children node)[index]?

theorem Place.listed : Node.Listed Place where
  length _ := rfl
  element isArray _ := congrArg (·[_]?) (Place.children_of_array isArray).symm

theorem Span.listed : Node.Listed Span where
  length _ := rfl
  element isArray _ := congrArg (·[_]?) (Span.children_of_array isArray).symm

namespace Node.Listed

variable {ν : Type} [Node ν] (listed : Node.Listed ν)

include listed

theorem length_children (visit : Visit ν) : Node.length visit.node = visit.children.length := by
  rw [listed.length, Visit.children, List.length_map]

theorem getElem?_children {visit : Visit ν} (isArray : Node.kind visit.node = .array)
    (index : Nat) : visit.children[index]? = (Node.element visit.node index).map visit.child := by
  rw [listed.element isArray, Visit.children, List.getElem?_map]

end Node.Listed

end JsonQuery
