import JsonQuery.Proofs.Selection.Inheritance
import JsonQuery.Proofs.Selection.Pointwise

/-!
Slices as arrays. A slice leaves a group of visits and not a node, and every predicate treats the
two in different branches. Where a step does not fan out, the values that its predicates leave
depend only on the values that they are given, so a group and an array of the same elements cannot
be told apart.
-/

namespace JsonQuery

/-! ## The predicates of a step -/

namespace Selector

variable {ν : Type} [Node ν]

def refine (selector : Selector) (context : Context) (predicates : List Predicate)
    (candidates : List (Candidate ν)) : Traced (List (Candidate ν)) :=
  predicates.foldlM (fun selected predicate => predicate.apply context selector.isFanOut selected)
    candidates

theorem refine_cons (selector : Selector) (context : Context) (predicate : Predicate)
    (predicates : List Predicate) (candidates : List (Candidate ν)) :
    selector.refine context (predicate :: predicates) candidates =
      predicate.apply context selector.isFanOut candidates >>=
        selector.refine context predicates := rfl

def refined (selector : Selector) (context : Context) (predicates : List Predicate)
    (candidate : Candidate ν) : Traced (List Json) := do
  let left ← selector.refine context predicates [candidate]
  Traced.ofExcept ((left.map Candidate.toMatch).mapM Match.decode)

end Selector

/-! ## Places of the same value -/

theorem Place.elements_rel {place other : Place} (same : place.value = other.value) :
    List.Forall₂ (fun place other : Place => place.value = other.value) place.elements
      other.elements := by
  rcases place with ⟨value, location⟩
  cases value with
  | array elements =>
      apply map_eq_iff_forall₂.mp
      exact (value_elements rfl).trans (value_elements same.symm).symm
  | null | bool | number | string | object =>
      have notArray : other.value.kind ≠ .array := by
        rw [← same]
        nofun
      rw [elements_of_not_array notArray]
      exact .nil

theorem similar_value : Similar fun place other : Place => place.value = other.value where
  kind same := congrArg Json.kind same
  field := by
    rintro ⟨value, location⟩ other name same
    cases value with
    | object members =>
        apply option_rel_of_map_eq
        exact (Place.value_lookup rfl name).trans (Place.value_lookup same.symm name).symm
    | null | bool | number | string | array =>
        have notObject : other.value.kind ≠ .object := by
          rw [← same]
          nofun
        show Option.Rel _ none (other.members.lookup name)
        rw [Place.members_of_not_object notObject]
        exact .none
  element position same := getElem?_rel (Place.elements_rel same) position
  length := by
    intro place other same isArray
    have otherArray : other.value.kind = .array := same ▸ isArray
    show place.children.length = other.children.length
    rw [Place.children_of_array isArray, Place.children_of_array otherArray]
    exact (Place.elements_rel same).length_eq
  element_none := by
    intro place other position same notArray
    exact congrArg (·[position]?) (Place.elements_of_not_array notArray)
  decode := by
    intro place other same
    exact ⟨place.value, rfl, congrArg Except.ok same.symm⟩

/-! ## Candidates of the same value -/

def Visit.SameValue (visit twin : Visit Place) : Prop :=
  visit.node.value = twin.node.value

namespace Candidate

/-- Candidates that come to the same value, whether they are nodes or groups. -/
def SameValue (candidate other : Candidate Place) : Prop :=
  candidate.value = other.value

theorem sameValue_nodes {visits twins : List (Visit Place)}
    (all : List.Forall₂ Visit.SameValue visits twins) :
    List.Forall₂ SameValue (visits.map .node) (twins.map .node) := by
  apply List.rel_map _ all
  intro visit twin same
  exact same

variable {candidate other : Candidate Place} {elements : List Json}

theorem values_tested (isArray : candidate.value = .array elements) :
    (candidate.tested false).map (fun member => member.node.value) = elements := by
  cases candidate with
  | node visit =>
      rw [tested_array (congrArg Json.kind isArray)]
      exact Visit.values_children isArray
  | group members => exact Json.array.inj isArray

theorem atIndex?_of_array (isArray : candidate.value.kind = .array) (position : Int) :
    candidate.atIndex? position =
      (resolveIndex? position (candidate.tested false).length).bind fun index =>
        (candidate.tested false)[index]?.map .node := by
  cases candidate with
  | node visit =>
      have kind : Node.kind visit.node = .array := isArray
      have element := Place.listed.getElem?_children kind
      have length := Place.listed.length_children visit
      simp only [atIndex?, tested, kind, element, ← length, Option.map_map]
      cases resolveIndex? position (Node.length visit.node) with
      | none => rfl
      | some index => cases found : Node.element visit.node index <;> simp [found]
  | group members =>
      simp only [atIndex?, tested]
      cases resolveIndex? position members.length with
      | none => rfl
      | some index => cases found : members[index]? <;> simp [found]

theorem slice?_of_array (isArray : candidate.value.kind = .array) (start stop : Option Int) :
    candidate.slice? start stop = some (.group (sliceOf start stop (candidate.tested false))) := by
  cases candidate with
  | node visit =>
      have kind : Node.kind visit.node = .array := isArray
      simp only [slice?, kind, tested]
  | group members => rfl

theorem exists_node (notArray : candidate.value.kind ≠ .array) :
    ∃ visit, candidate = .node visit ∧ Node.kind visit.node ≠ .array := by
  cases candidate with
  | node visit => exact ⟨visit, rfl, notArray⟩
  | group members => exact absurd rfl notArray

theorem atIndex?_of_not_array (notArray : candidate.value.kind ≠ .array) (position : Int) :
    candidate.atIndex? position = none := by
  obtain ⟨visit, rfl, kind⟩ := exists_node notArray
  rw [atIndex?]
  split
  next isArray => exact absurd isArray kind
  next => rfl

theorem slice?_of_not_array (notArray : candidate.value.kind ≠ .array) (start stop : Option Int) :
    candidate.slice? start stop = none := by
  obtain ⟨visit, rfl, kind⟩ := exists_node notArray
  rw [slice?]
  split
  next isArray => exact absurd isArray kind
  next => rfl

theorem tested_rel (same : SameValue candidate other) :
    List.Forall₂ Visit.SameValue (candidate.tested false) (other.tested false) := by
  by_cases isArray : candidate.value.kind = .array
  · obtain ⟨elements, here⟩ : ∃ elements, candidate.value = .array elements := by
      cases found : candidate.value with
      | array elements => exact ⟨elements, rfl⟩
      | null | bool | number | string | object => simp [found, Json.kind] at isArray
    apply map_eq_iff_forall₂.mp
    exact (values_tested here).trans (values_tested (same.symm.trans here)).symm
  · obtain ⟨twin, rfl, twinKind⟩ := exists_node (same ▸ isArray)
    obtain ⟨visit, rfl, kind⟩ := exists_node isArray
    have alike : Visit.SameValue visit twin := same
    simpa [tested, kind, twinKind] using alike

theorem atIndex?_rel (same : SameValue candidate other) (position : Int) :
    Option.Rel SameValue (candidate.atIndex? position) (other.atIndex? position) := by
  by_cases isArray : candidate.value.kind = .array
  · have members := tested_rel same
    rw [atIndex?_of_array isArray, atIndex?_of_array (same ▸ isArray), members.length_eq]
    cases resolveIndex? position (other.tested false).length with
    | none => exact .none
    | some index =>
        show Option.Rel SameValue (_[index]?.map .node) (_[index]?.map .node)
        rw [← List.getElem?_map, ← List.getElem?_map]
        exact getElem?_rel (sameValue_nodes members) index
  · rw [atIndex?_of_not_array isArray, atIndex?_of_not_array (same ▸ isArray)]
    exact .none

theorem slice?_rel (same : SameValue candidate other) (start stop : Option Int) :
    Option.Rel SameValue (candidate.slice? start stop) (other.slice? start stop) := by
  by_cases isArray : candidate.value.kind = .array
  · rw [slice?_of_array isArray, slice?_of_array (same ▸ isArray)]
    have members := sliceOf_rel start stop (tested_rel same)
    exact .some (congrArg Json.array (map_eq_iff_forall₂.mpr members))
  · rw [slice?_of_not_array isArray, slice?_of_not_array (same ▸ isArray)]
    exact .none

end Candidate

/-! ## Predicates -/

variable {candidates others : List (Candidate Place)}

/-- A predicate of a step that does not fan out leaves candidates of the same values, with the same
notices, of candidates of the same values. -/
theorem Predicate.agree (context : Context) (predicate : Predicate)
    (all : List.Forall₂ Candidate.SameValue candidates others) :
    Agree (List.Forall₂ Candidate.SameValue) (predicate.apply context false candidates)
      (predicate.apply context false others) := by
  cases predicate with
  | index position =>
      apply Agree.pure
      apply List.rel_filterMap _ all
      intro candidate other same
      exact Candidate.atIndex?_rel same position
  | slice start stop =>
      apply Agree.pure
      apply List.rel_filterMap _ all
      intro candidate other same
      exact Candidate.slice?_rel same start stop
  | filter condition =>
      have tests : List.Forall₂ Visit.SameValue (candidates.flatMap (·.tested false))
          (others.flatMap (·.tested false)) := by
        apply List.rel_flatMap all
        intro candidate other same
        exact Candidate.tested_rel same
      have evaluate (visit twin : Visit Place) (same : Visit.SameValue visit twin) :
          Agree Eq (condition.evaluate context visit.node) (condition.evaluate context twin.node) :=
        similar_value.evaluate same context condition
      apply (filter_agree evaluate tests).bind
      intro visits twins same
      exact .pure (Candidate.sameValue_nodes same)

namespace Selector

variable {selector : Selector} (context : Context) (predicates : List Predicate)

theorem refine_agree (noFanOut : selector.isFanOut = false)
    (all : List.Forall₂ Candidate.SameValue candidates others) :
    Agree (List.Forall₂ Candidate.SameValue) (selector.refine context predicates candidates)
      (selector.refine context predicates others) := by
  have samePredicates : List.Forall₂ Eq predicates predicates := List.forall₂_refl _
  refine Agree.foldlM ?_ samePredicates all
  intro sofar sofarTwins predicate _ allSofar equal
  rw [noFanOut, ← equal]
  exact predicate.agree context allSofar

theorem refine_answers (selector : Selector) (candidates : List (Candidate Place)) :
    Traced.Answers (selector.refine context predicates candidates) := by
  have each := Pointwise.foldlM predicates fun predicate _ =>
    predicate.pointwise context selector.isFanOut
  obtain ⟨image, answer, _⟩ := each
  exact ⟨candidates.flatMap image, answer candidates⟩

theorem refined_eq (selector : Selector) (candidate : Candidate Place) :
    selector.refined context predicates candidate = (do
      let left ← selector.refine context predicates [candidate]
      return left.map Candidate.value) := by
  simp only [refined, Candidate.decode_toMatches]
  rfl

theorem refined_of_sameValue (noFanOut : selector.isFanOut = false)
    {candidate other : Candidate Place} (same : candidate.SameValue other) :
    selector.refined context predicates candidate = selector.refined context predicates other := by
  rw [refined_eq, refined_eq]
  apply Agree.eq
  have left := refine_agree context predicates noFanOut (.cons same .nil)
  apply left.bind
  intro kept keptTwins all
  exact .pure (map_eq_iff_forall₂.mpr all)

theorem refined_answers (selector : Selector) (candidate : Candidate Place) :
    Traced.Answers (selector.refined context predicates candidate) := by
  rw [refined_eq]
  exact (refine_answers context predicates selector [candidate]).bind fun _ => .pure _

theorem refine_slice (selector : Selector) (start stop : Option Int) {visit : Visit Place}
    (isArray : Node.kind visit.node = .array) :
    selector.refine context (.slice start stop :: predicates) [.node visit] =
      selector.refine context predicates [.group (sliceOf start stop visit.children)] := by
  have sliced : (Candidate.node visit).slice? start stop =
      some (.group (sliceOf start stop visit.children)) := by
    simp only [Candidate.slice?, isArray]
  rw [refine_cons, Predicate.apply, List.filterMap_cons, sliced]
  rfl

end Selector

/-- A slice behaves as the array it stands for. Whatever predicates follow on a step that does not
fan out, they leave the same values, in the same order and with the same notices, of the slice as
of a node, wherever it stands, that is an array of the elements between the bounds. A slice alone is
one array, of these very elements. -/
theorem slice_as_array (context : Context) {selector : Selector}
    (noFanOut : selector.isFanOut = false) (start stop : Option Int) {visit twin : Visit Place}
    {elements : List Json} (isArray : visit.node.value = .array elements)
    (stands : twin.node.value = .array (sliceOf start stop elements)) :
    (∀ predicates, ∃ notices values,
      selector.refined context (.slice start stop :: predicates) (.node visit) =
          ⟨notices, .ok values⟩ ∧
        selector.refined context predicates (.node twin) = ⟨notices, .ok values⟩) ∧
    ∃ members, selector.refine context [.slice start stop] [.node visit] = pure [.group members] ∧
      members.map Visit.node = sliceOf start stop (Node.children visit.node) ∧
      members.map (fun member => member.node.value) = sliceOf start stop elements := by
  have kind : Node.kind visit.node = .array := congrArg Json.kind isArray
  have values : (sliceOf start stop visit.children).map (fun member => member.node.value) =
      sliceOf start stop elements := by
    rw [← sliceOf_map, Visit.values_children isArray]
  constructor
  · intro predicates
    -- The slice is a group and the twin a node, but they come to the same value.
    have same : Candidate.SameValue (.group (sliceOf start stop visit.children)) (.node twin) :=
      (congrArg Json.array values).trans stands.symm
    have sliced : selector.refined context (.slice start stop :: predicates) (.node visit) =
        selector.refined context predicates (.node twin) := by
      rw [← Selector.refined_of_sameValue context predicates noFanOut same]
      simp only [Selector.refined, Selector.refine_slice context predicates selector _ _ kind]
    obtain ⟨values, answer⟩ := Selector.refined_answers context predicates selector (.node twin)
    refine ⟨(selector.refined context predicates (.node twin)).notices, values, ?_⟩
    rw [sliced, ← answer]
    exact ⟨rfl, rfl⟩
  · refine ⟨_, Selector.refine_slice context [] selector start stop kind, ?_, values⟩
    show (sliceOf start stop (visit.node.children.map visit.child)).map Visit.node = _
    rw [← sliceOf_map, List.map_map]
    exact congrArg (sliceOf start stop) (List.map_id _)

theorem slice_as_array_nested :
    let context : Context := ⟨.builtIn, defaultMaxDepth⟩
    let kept := Json.array [.bool true, .string "k"]
    let visit : Visit Place := ⟨.root (.array [.null, .array [], kept]), []⟩
    let twin : Visit Place := ⟨.root (.array [.array [], kept]), []⟩
    let predicates : List Predicate :=
      [.slice (some (-5)) none, .slice (some 1) (some 9), .index 0,
        .filter (.binary .equal (.reference []) (.literal (.string "k")))]
    ∃ notices, (Selector.field "k").refined context (.slice (some 1) none :: predicates)
        (.node visit) = ⟨notices, .ok [.string "k"]⟩ ∧
      (Selector.field "k").refined context predicates (.node twin) =
        ⟨notices, .ok [.string "k"]⟩ := by
  intro context kept visit twin predicates
  have noFanOut : (Selector.field "k").isFanOut = false := rfl
  have isArray : visit.node.value = .array [.null, .array [], kept] := rfl
  have stands : twin.node.value = .array (sliceOf (some 1) none [.null, .array [], kept]) := rfl
  obtain ⟨each, _⟩ := slice_as_array context noFanOut (some 1) none isArray stands
  obtain ⟨notices, values, sliced, plain⟩ := each predicates
  have computed : ((Selector.field "k").refined context predicates (.node twin)).outcome =
      .ok [.string "k"] := by
    cbv
  rw [plain, Except.ok.injEq] at computed
  exact ⟨notices, computed ▸ sliced, computed ▸ plain⟩

/-- Where a step fans out, a filter tests the members of a slice, but an array as a whole. -/
example :
    let context : Context := ⟨.builtIn, defaultMaxDepth⟩
    let array : Candidate Place := .node ⟨.root (.array [.null]), []⟩
    let filter := Predicate.filter (.literal (.bool true))
    (Selector.wildcard.refined context [.slice none none, filter] array).outcome = .ok [.null] ∧
      (Selector.wildcard.refined context [filter] array).outcome = .ok [.array [.null]] := by
  constructor <;> rfl

end JsonQuery
