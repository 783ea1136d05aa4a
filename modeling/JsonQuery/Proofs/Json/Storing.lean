import JsonQuery.Document.Edit
import JsonQuery.Proofs.Json.Nesting

/-!
The values that texts can hold: integers are in range, and objects repeat no name. Decoding gives
such values, and an edit keeps a value one of them. What a write does to the nesting depends on the
length of its way.
-/

namespace JsonQuery

/-- Whether texts can hold a number; they can hold every double. -/
def Number.isStorable : Number → Bool
  | .integer value => holdsInteger value
  | .double _ => true

namespace Json

/-- The values that texts can spell. -/
inductive Storable : Json → Prop
  | null : Storable .null
  | bool (value : Bool) : Storable (.bool value)
  | number {value : Number} (storable : value.isStorable = true) : Storable (.number value)
  | string (text : String) : Storable (.string text)
  | array {elements : List Json} (each : ∀ element ∈ elements, element.Storable) :
      Storable (.array elements)
  | object {members : List (String × Json)} (distinct : (members.map Prod.fst).Nodup)
      (each : ∀ member ∈ members, member.2.Storable) : Storable (.object members)

namespace Storable

theorem elements {items : List Json} (storable : Storable (.array items)) :
    ∀ element ∈ items, element.Storable := by
  cases storable with
  | array each => exact each

theorem members {items : List (String × Json)} (storable : Storable (.object items)) :
    (items.map Prod.fst).Nodup ∧ ∀ member ∈ items, member.2.Storable := by
  cases storable with
  | object distinct each => exact ⟨distinct, each⟩

end Storable

/-! ## Decoding -/

theorem holdsInteger_of_integer? {spelled : NumberText} {value : Int}
    (read : spelled.integer? = some value) : Number.holdsInteger value = true := by
  unfold NumberText.integer? at read
  split at read
  next =>
    simp only [Option.ite_none_right_eq_some, Option.some.injEq] at read
    rcases read with ⟨held, rfl⟩
    exact held.1
  next => cases read

theorem isStorable_of_toNumber? {spelled : NumberText} {number : Number}
    (read : spelled.toNumber? = some number) : number.isStorable = true := by
  unfold NumberText.toNumber? at read
  split at read
  next value isInteger =>
    cases read
    exact holdsInteger_of_integer? isInteger
  next =>
    rcases Option.map_eq_some_iff.mp read with ⟨double, _, rfl⟩
    rfl

theorem storable_of_scalar {text : List Char} {tree : Json} (scalar : Scalar text tree) :
    tree.merged.Storable := by
  cases scalar with
  | null => exact .null
  | true => exact .bool true
  | false => exact .bool false
  | string quoted => exact .string _
  | number parts inRange => exact .number (isStorable_of_toNumber? inRange)

theorem storable_of_spells : ∀ {levels : Nat} {text : List Char} {tree : Json},
    Spells levels text tree → tree.merged.Storable := by
  intro levels
  induction levels with
  | zero => exact storable_of_scalar
  | succ levels induction =>
      intro text tree spelled
      rcases spelled with scalar | composite
      · exact storable_of_scalar scalar
      · cases composite with
        | array inside =>
            rw [Json.merged, mergedElements_eq_map]
            refine .array (List.forall_mem_map.mpr fun element there => ?_)
            rcases inside.exists_text there with ⟨part, isPart, _⟩
            exact induction isPart
        | object inside =>
            rw [Json.merged, mergedMembers_eq_map]
            refine .object (nodup_mergeMembers _) (forall_mergeMembers ?_)
            refine List.forall_mem_map.mpr fun member there => ?_
            rcases inside.exists_text there with ⟨part, isMember, _⟩
            cases isMember with
            | intro _ _ _ isPart => exact induction isPart

theorem storable_of_decode {source : List UInt8} {value : Json}
    (decoded : decode source = .ok value) : value.Storable := by
  rcases decode_eq_ok_iff.mp decoded with ⟨text, tree, rfl, isDocument, rfl⟩
  cases isDocument with
  | intro _ spelled _ => exact storable_of_spells spelled

/-! ## Steps of an edit -/

theorem forall_setElement {holds : Json → Prop} {elements : List Json} (index : Nat) {value : Json}
    (valueHolds : holds value) (each : ∀ element ∈ elements, holds element) :
    ∀ element ∈ elements.set index value, holds element := by
  intro element there
  rcases List.mem_or_eq_of_mem_set there with before | rfl
  · exact each element before
  · exact valueHolds

/-- A step of a write leaves the tree as it is, or goes on in a member that is put back, or in an
element that is put back. -/
theorem writeAt_cons (value : Json) (path : String) (segment : Segment) (segments : List Segment)
    (tree : Json) :
    (writeAt value path (segment :: segments) tree).2 = tree ∨
      (∃ name members, tree = .object members ∧
        (writeAt value path (segment :: segments) tree).2 = .object (putMember name
          (writeAt value path segments ((members.lookup name).getD (.object []))).2 members)) ∨
      ∃ elements index element, tree = .array elements ∧ elements[index]? = some element ∧
        (writeAt value path (segment :: segments) tree).2 =
          .array (elements.set index (writeAt value path segments element).2) := by
  cases tree with
  | object members =>
      cases segment with
      | key name => exact .inr (.inl ⟨name, members, rfl, by rw [writeAt]⟩)
      | index position => exact .inl (by rw [writeAt])
  | array elements =>
      rw [writeAt]
      split
      next => exact .inl rfl
      next index _ =>
        split
        next element found => exact .inr (.inr ⟨elements, index, element, rfl, found, rfl⟩)
        next => exact .inl rfl
  | null | bool | number | string => exact .inl (by rw [writeAt] <;> nofun)

/-- A step of a removal leaves the tree as it is, takes something out of it, or goes on in a member
or an element that is put back. -/
theorem delete_cons (path : String) (segment : Segment) (segments : List Segment) (tree : Json) :
    (delete path (segment :: segments) tree).2 = tree ∨
      (∃ members rest, tree = .object members ∧ rest.Sublist members ∧
        (delete path (segment :: segments) tree).2 = .object rest) ∨
      (∃ elements rest, tree = .array elements ∧ rest.Sublist elements ∧
        (delete path (segment :: segments) tree).2 = .array rest) ∨
      (∃ name members member, tree = .object members ∧ members.lookup name = some member ∧
        (delete path (segment :: segments) tree).2 =
          .object (putMember name (delete path segments member).2 members)) ∨
      ∃ elements index element, tree = .array elements ∧ elements[index]? = some element ∧
        (delete path (segment :: segments) tree).2 =
          .array (elements.set index (delete path segments element).2) := by
  cases tree with
  | object members =>
      cases segment with
      | key name =>
          cases found : members.lookup name with
          | none =>
              refine .inl ?_
              cases segments <;> simp only [delete, found]
          | some member =>
              cases segments with
              | nil =>
                  refine .inr (.inl ⟨members, eraseMember name members, rfl, ?_, ?_⟩)
                  · exact List.eraseP_sublist
                  · simp only [delete, found]
              | cons next segments =>
                  refine .inr (.inr (.inr (.inl ⟨name, members, member, rfl, found, ?_⟩)))
                  simp only [delete, found]
      | index position => exact .inl (by rw [delete] <;> nofun)
  | array elements =>
      rw [delete]
      split
      next => exact .inl rfl
      next index _ =>
        split
        next =>
          exact .inr (.inr (.inl ⟨elements, _, rfl, List.eraseIdx_sublist elements index, rfl⟩))
        next element found =>
          exact .inr (.inr (.inr (.inr ⟨elements, index, element, rfl, found, rfl⟩)))
        next => exact .inl rfl
  | null | bool | number | string => exact .inl (by rw [delete] <;> nofun)

/-- A property that is kept where a value is taken apart and put together again. -/
structure Editable (holds : Json → Prop) : Prop where
  element {elements : List Json} : holds (.array elements) → ∀ element ∈ elements, holds element
  member {members : List (String × Json)} : holds (.object members) →
    ∀ member ∈ members, holds member.2
  empty : holds (.object [])
  putMember {members : List (String × Json)} (name : String) {value : Json} :
    holds (.object members) → holds value → holds (.object (putMember name value members))
  setElement {elements : List Json} (index : Nat) {value : Json} :
    holds (.array elements) → holds value → holds (.array (elements.set index value))
  fewerElements {elements fewer : List Json} : holds (.array elements) →
    fewer.Sublist elements → holds (.array fewer)
  fewerMembers {members fewer : List (String × Json)} : holds (.object members) →
    fewer.Sublist members → holds (.object fewer)

namespace Editable

variable {holds : Json → Prop} (editable : Editable holds)

include editable

theorem lookup {members : List (String × Json)} (holdsAll : holds (.object members))
    {name : String} {member : Json} (found : members.lookup name = some member) :
    holds member :=
  editable.member holdsAll _ (mem_of_lookup found)

theorem writeAt {value : Json} (valueHolds : holds value) (path : String)
    (segments : List Segment) : ∀ {tree : Json}, holds tree →
      holds (writeAt value path segments tree).2 := by
  induction segments with
  | nil =>
      intro tree treeHolds
      rw [Json.writeAt]
      exact valueHolds
  | cons segment segments induction =>
      intro tree treeHolds
      rcases writeAt_cons value path segment segments tree with
        same | ⟨name, members, rfl, same⟩ | ⟨elements, index, element, rfl, found, same⟩
      · rw [same]
        exact treeHolds
      · rw [same]
        refine editable.putMember name treeHolds (induction ?_)
        cases found : members.lookup name with
        | none => exact editable.empty
        | some member => exact editable.lookup treeHolds found
      · rw [same]
        exact editable.setElement index treeHolds
          (induction (editable.element treeHolds element (List.mem_of_getElem? found)))

theorem set {value : Json} (valueHolds : holds value) (path : String)
    (segments : List Segment) {tree : Json} (treeHolds : holds tree) :
    holds (Json.set value path segments tree).2 := by
  unfold Json.set
  split
  next => exact treeHolds
  next => exact editable.writeAt valueHolds path segments treeHolds

theorem delete (path : String) (segments : List Segment) : ∀ {tree : Json}, holds tree →
    holds (Json.delete path segments tree).2 := by
  induction segments with
  | nil =>
      intro tree treeHolds
      rw [Json.delete]
      exact treeHolds
  | cons segment segments induction =>
      intro tree treeHolds
      rcases delete_cons path segment segments tree with
        same | ⟨members, rest, rfl, fewer, same⟩ | ⟨elements, rest, rfl, fewer, same⟩ |
          ⟨name, members, member, rfl, found, same⟩ | ⟨elements, index, element, rfl, found, same⟩
      · rw [same]
        exact treeHolds
      · rw [same]
        exact editable.fewerMembers treeHolds fewer
      · rw [same]
        exact editable.fewerElements treeHolds fewer
      · rw [same]
        exact editable.putMember name treeHolds (induction (editable.lookup treeHolds found))
      · rw [same]
        exact editable.setElement index treeHolds
          (induction (editable.element treeHolds element (List.mem_of_getElem? found)))

end Editable

theorem editable_storable : Editable Storable where
  element := Storable.elements
  member storable := storable.members.2
  empty := .object List.nodup_nil (List.forall_mem_nil _)
  putMember name _ storable valueStorable :=
    .object (nodup_putMember name _ storable.members.1)
      (forall_putMember name valueStorable storable.members.2)
  setElement index _ storable valueStorable :=
    .array (forall_setElement index valueStorable storable.elements)
  fewerElements storable fewer :=
    .array fun element there => storable.elements element (fewer.subset there)
  fewerMembers storable fewer :=
    .object (storable.members.1.sublist (fewer.map Prod.fst)) fun member there =>
      storable.members.2 member (fewer.subset there)

/-! ## Nesting after an edit -/

namespace NestsWithin

/-- A write goes down one level for each segment. So an object that it creates fits in wherever
something below it is still to come. -/
theorem writeAt {value : Json} {levels : Nat} (within : value.NestsWithin levels) (path : String)
    (segments : List Segment) : ∀ {limit : Nat} {tree : Json}, segments.length + levels ≤ limit →
      tree.NestsWithin limit ∨ tree = .object [] →
        (writeAt value path segments tree).2.NestsWithin limit := by
  induction segments with
  | nil =>
      intro limit tree room _
      rw [List.length_nil, Nat.zero_add] at room
      rw [Json.writeAt]
      exact within.mono room
  | cons segment segments induction =>
      intro limit tree room treeWithin
      rw [List.length_cons, Nat.add_right_comm] at room
      rcases Nat.exists_eq_add_one_of_ne_zero (Nat.ne_zero_of_lt room) with ⟨less, rfl⟩
      have further := Nat.le_of_succ_le_succ room
      have here : tree.NestsWithin (less + 1) := by
        rcases treeWithin with here | rfl
        · exact here
        · exact List.forall_mem_nil _
      rcases writeAt_cons value path segment segments tree with
        same | ⟨name, members, rfl, same⟩ | ⟨elements, index, element, rfl, found, same⟩
      · rw [same]
        exact here
      · rw [same]
        refine forall_putMember name (induction further ?_) here
        cases found : members.lookup name with
        | none => exact .inr rfl
        | some member => exact .inl (here _ (mem_of_lookup found))
      · rw [same]
        exact forall_setElement index
          (induction further (.inl (here element (List.mem_of_getElem? found)))) here

theorem set {value : Json} {levels limit : Nat} (within : value.NestsWithin levels) (path : String)
    {segments : List Segment} (room : segments.length + levels ≤ limit) {tree : Json}
    (treeWithin : tree.NestsWithin limit) :
    (Json.set value path segments tree).2.NestsWithin limit := by
  unfold Json.set
  split
  next => exact treeWithin
  next => exact within.writeAt path segments room (.inl treeWithin)

theorem delete (path : String) (segments : List Segment) : ∀ {limit : Nat} {tree : Json},
    tree.NestsWithin limit → (delete path segments tree).2.NestsWithin limit := by
  induction segments with
  | nil =>
      intro limit tree within
      rw [Json.delete]
      exact within
  | cons segment segments induction =>
      intro limit tree within
      rcases delete_cons path segment segments tree with
        same | ⟨members, rest, rfl, fewer, same⟩ | ⟨elements, rest, rfl, fewer, same⟩ |
          ⟨name, members, member, rfl, found, same⟩ | ⟨elements, index, element, rfl, found, same⟩
      · rw [same]
        exact within
      · rcases within.members with ⟨less, rfl, each⟩
        rw [same]
        exact fun member there => each member (fewer.subset there)
      · rcases within.elements with ⟨less, rfl, each⟩
        rw [same]
        exact fun element there => each element (fewer.subset there)
      · rcases within.members with ⟨less, rfl, each⟩
        rw [same]
        exact forall_putMember name (induction (each _ (mem_of_lookup found))) each
      · rcases within.elements with ⟨less, rfl, each⟩
        rw [same]
        exact forall_setElement index
          (induction (each element (List.mem_of_getElem? found))) each

end NestsWithin

end Json

end JsonQuery
