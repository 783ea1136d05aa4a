import JsonQuery.Source.Node

/-!
Places in a decoded tree as nodes. A place is known by the positions that lead to it from the
root, so two equal values at different places are different nodes.
-/

namespace JsonQuery

/-- A value of a tree and where it stands: the position in each container, innermost first. -/
structure Place where
  value : Json
  location : List Nat

namespace Place

def root (value : Json) : Place := ⟨value, []⟩

def child (place : Place) (position : Nat) (value : Json) : Place :=
  ⟨value, position :: place.location⟩

def elements (place : Place) : List Place :=
  match place.value with
  | .array elements => elements.mapIdx place.child
  | _ => []

def members (place : Place) : List (String × Place) :=
  match place.value with
  | .object members =>
    members.mapIdx fun position member => (member.1, place.child position member.2)
  | _ => []

def children (place : Place) : List Place :=
  match place.value with
  | .array _ => place.elements
  | _ => place.members.map Prod.snd

end Place

instance : Node Place where
  kind place := place.value.kind
  field place name := place.members.lookup name
  element place position := place.elements[position]?
  length place := place.children.length
  children := Place.children
  decode place := .ok place.value
  same left right := left.location == right.location

end JsonQuery
