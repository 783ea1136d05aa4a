import JsonQuery.Proofs.Source.Descent
import Mathlib

/-!
Queries over undecoded text. Where a text repeats no name, its spans and the places of the decoded
tree correspond one to one: they have corresponding children, and two spans start together exactly
if the places are the same. So every query selects the same from both.
-/

namespace JsonQuery

namespace Json

/-- The source is the encoding of a document in which no object repeats a name. -/
def RepeatsNoName (source : List UInt8) : Prop :=
  ∃ text tree, source = Utf8.encode text ∧ DocumentText text tree ∧ tree.Unrepeated

end Json

namespace Span

/-- A span and a place that are reached from the root by the same way, and hold the same tree. -/
structure Locates (root span : Span) (place : Place) : Prop where
  held : span.Holds place.value
  unrepeated : place.value.Unrepeated
  reached : root.descend? place.location.reverse = some span

namespace Locates

variable {root span : Span} {place : Place}

theorem shows (locates : Locates root span place) : Shows span place :=
  ⟨place.value, locates.held, (Json.merged_eq_self _ locates.unrepeated).symm⟩

theorem child (locates : Locates root span place) {position : Nat} {child : Span} {value : Json}
    (childAt : span.children[position]? = some child) (held : child.Holds value)
    (unrepeated : value.Unrepeated) : Locates root child (place.child position value) where
  held := held
  unrepeated := unrepeated
  reached := by
    rw [Place.child, List.reverse_cons, descend?_append, locates.reached]
    exact childAt

theorem elements (locates : Locates root span place) :
    List.Forall₂ (Locates root) span.elements place.elements := by
  have held := locates.held
  have unrepeated := locates.unrepeated
  rw [Place.elements]
  cases value : place.value with
  | array trees =>
      rw [value] at held unrepeated
      refine forall₂_mapIdx ?_ held.elements.1
      intro position child tree childAt treeAt childHeld
      rw [← children_of_array held.kind] at childAt
      exact locates.child childAt childHeld (unrepeated.of_mem (List.mem_of_getElem? treeAt))
  | null | bool | number | string | object =>
      rw [value] at held
      rw [elements_of_not_array (by rw [held.kind]; rintro ⟨⟩)]
      exact .nil

theorem members (locates : Locates root span place) :
    List.Forall₂ (Named (Locates root)) span.members place.members := by
  have held := locates.held
  have unrepeated := locates.unrepeated
  rw [Place.members]
  cases value : place.value with
  | object trees =>
      rw [value] at held unrepeated
      refine forall₂_mapIdx ?_ held.members.1
      intro position written member writtenAt memberAt named
      have childAt : span.children[position]? = some written.2 := by
        rw [children_of_not_array (by rw [held.kind]; rintro ⟨⟩), List.getElem?_map, writtenAt]
        rfl
      exact ⟨named.1, locates.child childAt named.2
        (unrepeated.2.of_mem (List.mem_of_getElem? memberAt))⟩
  | null | bool | number | string | array =>
      rw [value] at held
      rw [members_of_not_object (by rw [held.kind]; rintro ⟨⟩)]
      exact .nil

theorem children (locates : Locates root span place) :
    List.Forall₂ (Locates root) span.children place.children := by
  have kind := locates.held.kind
  by_cases isArray : place.value.kind = .array
  · rw [children_of_array (kind.trans isArray), Place.children_of_array isArray]
    exact locates.elements
  · rw [children_of_not_array (kind ▸ isArray), Place.children_of_not_array isArray]
    exact List.rel_map (fun _ _ named => named.2) locates.members

theorem field (locates : Locates root span place) (name : String) :
    Option.Rel (Locates root) (span.field? name) (place.members.lookup name) := by
  have nodup : (place.members.map Prod.fst).Nodup := by
    have unrepeated := locates.unrepeated
    rw [Place.members]
    cases value : place.value with
    | object trees =>
        rw [value] at unrepeated
        have names : (trees.mapIdx fun position member =>
            (member.1, place.child position member.2)).map Prod.fst = trees.map Prod.fst := by
          apply List.ext_getElem?
          intro position
          rw [List.getElem?_map, List.getElem?_mapIdx, Option.map_map, List.getElem?_map]
          rfl
        dsimp only
        rw [names]
        exact unrepeated.1
    | null | bool | number | string | array => exact .nil
  rw [Json.lookup_of_nodup nodup]
  exact field?_rel locates.members name

end Locates

theorem alike_locates {root : Span} {tree : Json} (held : root.Holds tree) :
    Alike (Locates root) where
  kind locates := locates.held.kind
  field name locates := locates.field name
  element position locates := getElem?_rel locates.elements position
  length locates isArray := similar_shows.length locates.shows isArray
  element_none position locates notArray :=
    similar_shows.element_none position locates.shows notArray
  decode locates := similar_shows.decode locates.shows
  children locates := locates.children
  same := by
    intro span place other twin locates otherLocates
    show (span.start == other.start) = (place.location == twin.location)
    rw [Bool.eq_iff_iff, beq_iff_eq, beq_iff_eq]
    constructor
    · intro equal
      have sameWay := held.way_eq_of_start_eq _ locates.reached otherLocates.reached equal
      exact List.reverse_injective sameWay
    · intro equal
      have reached := locates.reached
      rw [equal, otherLocates.reached, Option.some.injEq] at reached
      rw [reached]

end Span

/-- Where a source repeats no name, every query selects the same from the undecoded text as from
the decoded tree. If it fails it fails for both, and never because a value would not decode. -/
theorem select_source_eq_select_tree {source : List UInt8} {value : Json}
    (decoded : Json.decode source = .ok value) (repeatsNoName : Json.RepeatsNoName source)
    (query : Query) (context : Context) :
    ∃ root, Span.root? source = some root ∧
      query.select context root = query.select context (Place.root value) ∧
      ∀ detail, (query.select context root).outcome ≠ .error (.undecodable detail) ∧
        (query.select context (Place.root value)).outcome ≠ .error (.undecodable detail) := by
  rcases repeatsNoName with ⟨text, tree, rfl, isDocument, unrepeated⟩
  have same : value = tree := by
    have read := Json.decode_eq_ok_iff.mpr ⟨text, tree, rfl, isDocument, rfl⟩
    rw [decoded, Json.merged_eq_self tree unrepeated] at read
    exact Except.ok.inj read
  subst same
  rcases Span.exists_root_of_document isDocument with ⟨root, isRoot, held⟩
  have located : Span.Locates root root (Place.root value) := ⟨held, unrepeated, rfl⟩
  have agree := (Span.alike_locates held).select query context located
  refine ⟨root, isRoot, agree.eq, fun detail => ⟨agree.decodes detail, ?_⟩⟩
  rw [← agree.eq]
  exact agree.decodes detail

theorem repeatsNoName_nested :
    Json.RepeatsNoName
      (Utf8.encode ['{', '"', 'a', '"', ':', '[', 't', 'r', 'u', 'e', ']', '}']) := by
  have name : Json.Quoted ('"' :: (['a'] ++ ['"'])) "a" :=
    .intro (.cons (.plain (by decide) (by decide) (by decide)) .nil)
  have element : Json.Listing (Json.Spells 125) ([] ++ (['t', 'r', 'u', 'e'] ++ []))
      [.bool true] := .last .nil (.inl .true) .nil
  have array : Json.Spells 126 ('[' :: (['t', 'r', 'u', 'e'] ++ [']'])) (.array [.bool true]) :=
    .inr (.array (.items element))
  have member : Json.Listing (Json.Member (Json.Spells 126)) _ [("a", .array [.bool true])] :=
    .last .nil (.intro name .nil .nil array) .nil
  have document : Json.Spells Json.nestingLimit _ _ := .inr (.object (.items member))
  exact ⟨_, _, rfl, .intro .nil document .nil, by simp, ⟨trivial, trivial⟩, trivial⟩

/-- The members called `a` at any depth, their elements, and the containers of those. -/
theorem select_source_eq_select_tree_nested :
    let source := Utf8.encode ['{', '"', 'a', '"', ':', '[', 't', 'r', 'u', 'e', ']', '}']
    let query : Query := ⟨[⟨.recursive "a", []⟩, ⟨.wildcard, []⟩, ⟨.parent, []⟩]⟩
    ∃ root, Span.root? source = some root ∧
      query.select ⟨.builtIn, 2⟩ root =
        query.select ⟨.builtIn, 2⟩ (Place.root (.object [("a", .array [.bool true])])) ∧
      ∀ detail, (query.select ⟨.builtIn, 2⟩ root).outcome ≠ .error (.undecodable detail) ∧
        (query.select ⟨.builtIn, 2⟩ (Place.root (.object [("a", .array [.bool true])]))).outcome ≠
          .error (.undecodable detail) :=
  select_source_eq_select_tree (by cbv) repeatsNoName_nested _ _

end JsonQuery
