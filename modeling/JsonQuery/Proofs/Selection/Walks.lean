import JsonQuery.Proofs.Json.Grammar
import JsonQuery.Proofs.Selection.Direct
import JsonQuery.Proofs.Selection.Words
import JsonQuery.Proofs.Source.Places
import Mathlib

/-!
Where direct queries lead. A segment names at most one place: the member of a name, the element at
a position, or the element whose position a name spells. A direct query finds the place that its
segments name one after the other from where it begins, and nothing besides.
-/

namespace JsonQuery

/-! ## Counts -/

/-- A text that spells a count of 64 bits: digits, and perhaps a plus sign before them. -/
def Digits.Spells (text : List Char) (count : Nat) : Prop :=
  ∃ digits, (text = digits ∨ text = '+' :: digits) ∧ Json.DigitText digits ∧
    toNat digits = count ∧ count < 0x10000000000000000

theorem Digits.readNat?_eq_some_iff {text : List Char} {number : Nat} :
    readNat? text = some number ↔ Json.DigitText text ∧ toNat text = number := by
  simp [readNat?, Json.DigitText, and_assoc]

theorem Digits.readCount?_eq_some_iff {text : List Char} {count : Nat} :
    readCount? text = some count ↔ Spells text count := by
  have bounded (digits : List Char) :
      (readNat? digits >>= fun number =>
        if number < 0x10000000000000000 then some number else none) = some count ↔
      Json.DigitText digits ∧ toNat digits = count ∧ count < 0x10000000000000000 := by
    simp only [Option.bind_eq_bind, Option.bind_eq_some_iff, readNat?_eq_some_iff,
      Option.ite_none_right_eq_some, Option.some.injEq]
    grind
  have noPlus (digits : List Char) : ¬Json.DigitText ('+' :: digits) := fun isDigits => by
    have plus := isDigits.2 '+' (by simp)
    simp at plus
  unfold readCount? Spells
  split
  next digits => simp [bounded, noPlus, -Option.bind_eq_bind]
  next notPlus =>
    rw [bounded]
    constructor
    · intro spelled
      exact ⟨text, .inl rfl, spelled⟩
    · rintro ⟨digits, same | plus, spelled⟩
      · rwa [same]
      · exact absurd plus (notPlus digits)

/-! ## What segments name -/

namespace Place

/-- The place that a segment names from a place. A name is that of the first member which is called
so, or spells the position of an element; a position counts from the start or from the end. -/
inductive Names (place : Place) : Segment → Place → Prop
  | member {name : String} {members : List (String × Json)} {position : Nat} {value : Json}
      (isObject : place.value = .object members)
      (isMember : members[position]? = some (name, value))
      (isFirst : ∀ member ∈ members.take position, member.1 ≠ name) :
      Names place (.key name) (place.child position value)
  | spelled {name : String} {elements : List Json} {position : Nat} {value : Json}
      (isArray : place.value = .array elements) (isElement : elements[position]? = some value)
      (spells : Digits.Spells name.toList position) :
      Names place (.key name) (place.child position value)
  | fromStart {elements : List Json} {position : Nat} {value : Json}
      (isArray : place.value = .array elements) (isElement : elements[position]? = some value) :
      Names place (.index position) (place.child position value)
  | fromEnd {elements : List Json} {position : Nat} {value : Json}
      (isArray : place.value = .array elements) (isElement : elements[position]? = some value) :
      Names place (.index (position - elements.length)) (place.child position value)

/-- The place that segments name one after the other. -/
inductive NamesAll : Place → List Segment → Place → Prop
  | nothing {place : Place} : NamesAll place [] place
  | more {place next found : Place} {segment : Segment} {segments : List Segment}
      (names : place.Names segment next) (others : NamesAll next segments found) :
      NamesAll place (segment :: segments) found

theorem lookup_mapIdx_eq_some_iff {α β : Type} {name : String} {found : β}
    (members : List (String × α)) : ∀ {change : Nat → α → β},
      (members.mapIdx fun position member =>
        (member.1, change position member.2)).lookup name = some found ↔
      ∃ position value, members[position]? = some (name, value) ∧
        (∀ member ∈ members.take position, member.1 ≠ name) ∧ found = change position value := by
  induction members with
  | nil => simp
  | cons member members induction =>
      intro change
      rw [List.mapIdx_cons, Json.lookup_member_cons]
      constructor
      · intro isFound
        split at isFound
        next here => exact ⟨0, member.2, by simp [← here], by simp, (Option.some.inj isFound).symm⟩
        next other =>
          obtain ⟨position, value, isMember, isFirst, same⟩ := induction.mp isFound
          exact ⟨position + 1, value, isMember, by simpa [other] using isFirst, same⟩
      · rintro ⟨position, value, isMember, isFirst, same⟩
        cases position with
        | zero => simp_all
        | succ position =>
            have other : member.1 ≠ name := isFirst member (by simp)
            rw [if_neg other, induction]
            have isFirstOfOthers : ∀ earlier ∈ members.take position, earlier.1 ≠ name :=
              fun earlier there => isFirst earlier (List.mem_cons_of_mem member there)
            exact ⟨position, value, isMember, isFirstOfOthers, same⟩

theorem field_eq_some_iff {place found : Place} {name : String} :
    Node.field place name = some found ↔
      ∃ members position value, place.value = .object members ∧
        members[position]? = some (name, value) ∧
        (∀ member ∈ members.take position, member.1 ≠ name) ∧
        found = place.child position value := by
  show place.members.lookup name = some found ↔ _
  unfold members
  split
  next members isObject => simp [lookup_mapIdx_eq_some_iff, isObject]
  next notObject =>
    apply iff_of_false (by simp)
    rintro ⟨members, _, _, isObject, _⟩
    exact notObject members isObject

theorem element_eq_some_iff {place found : Place} {position : Nat} :
    Node.element place position = some found ↔
      ∃ elements value, place.value = .array elements ∧ elements[position]? = some value ∧
        found = place.child position value := by
  show place.elements[position]? = some found ↔ _
  unfold elements
  split
  next elements isArray => simp [isArray, eq_comm]
  next notArray =>
    apply iff_of_false (by simp)
    rintro ⟨elements, _, isArray, _⟩
    exact notArray elements isArray

/-- A walk follows a segment to the place that the segment names. -/
theorem walk?_eq_some_iff {place found : Place} {segment : Segment} :
    Node.walk? place segment = some found ↔ place.Names segment found := by
  have kind : Node.kind place = place.value.kind := rfl
  constructor
  · intro leads
    unfold Node.walk? at leads
    split at leads
    next name =>
      split at leads
      next =>
        obtain ⟨members, position, value, isObject, isMember, isFirst, rfl⟩ :=
          field_eq_some_iff.mp leads
        exact .member isObject isMember isFirst
      next =>
        obtain ⟨position, read, leads⟩ := Option.bind_eq_some_iff.mp leads
        obtain ⟨elements, value, isArray, isElement, rfl⟩ := element_eq_some_iff.mp leads
        exact .spelled isArray isElement (Digits.readCount?_eq_some_iff.mp read)
      next => simp at leads
    next position =>
      split at leads
      next =>
        obtain ⟨index, resolved, leads⟩ := Option.bind_eq_some_iff.mp leads
        obtain ⟨elements, value, isArray, isElement, rfl⟩ := element_eq_some_iff.mp leads
        rw [length_of_array isArray] at resolved
        obtain rfl | rfl := (resolveIndex?_eq_some_iff.mp resolved).2
        · exact .fromStart isArray isElement
        · exact .fromEnd isArray isElement
      next => simp at leads
  · intro names
    cases names with
    | @member name members position value isObject isMember isFirst =>
        simp only [Node.walk?, kind, isObject, Json.kind]
        exact field_eq_some_iff.mpr ⟨members, position, value, isObject, isMember, isFirst, rfl⟩
    | @spelled name elements position value isArray isElement spells =>
        have element := element_eq_some_iff.mpr ⟨elements, value, isArray, isElement, rfl⟩
        have read := Digits.readCount?_eq_some_iff.mpr spells
        simp [Node.walk?, kind, isArray, Json.kind, read, element]
    | @fromStart elements position value isArray isElement =>
        have element := element_eq_some_iff.mpr ⟨elements, value, isArray, isElement, rfl⟩
        have inside := (List.getElem?_eq_some_iff.mp isElement).1
        have resolved : resolveIndex? position elements.length = some position :=
          resolveIndex?_eq_some_iff.mpr ⟨inside, .inl rfl⟩
        simp [Node.walk?, kind, isArray, Json.kind, length_of_array isArray, resolved, element]
    | @fromEnd elements position value isArray isElement =>
        have element := element_eq_some_iff.mpr ⟨elements, value, isArray, isElement, rfl⟩
        have inside := (List.getElem?_eq_some_iff.mp isElement).1
        have resolved :
            resolveIndex? (position - elements.length) elements.length = some position :=
          resolveIndex?_eq_some_iff.mpr ⟨inside, .inr rfl⟩
        simp [Node.walk?, kind, isArray, Json.kind, length_of_array isArray, resolved, element]

/-- A walk follows segments to the place that they name one after the other. -/
theorem walkAll?_eq_some_iff {segments : List Segment} {found : Place} :
    ∀ {place : Place},
      Node.walkAll? place segments = some found ↔ NamesAll place segments found := by
  induction segments with
  | nil =>
      intro place
      constructor
      · intro same
        cases same
        exact .nothing
      · intro names
        cases names
        rfl
  | cons segment segments induction =>
      intro place
      simp only [Node.walkAll?, List.foldlM_cons, Option.bind_eq_bind, Option.bind_eq_some_iff,
        walk?_eq_some_iff] at induction ⊢
      constructor
      · rintro ⟨next, names, others⟩
        exact .more names (induction.mp others)
      · intro names
        cases names with
        | @more _ next _ _ _ names others => exact ⟨next, names, induction.mpr others⟩

end Place

/-! ## Queries of the same segments -/

/-- An index has the same segment as a step of its own and as a predicate of the step before. -/
theorem Step.segments?_index (step : Step) (position : Int) (others : List Predicate) :
    Step.segments? { step with predicates := step.predicates ++ .index position :: others } =
      (step.segments?.bind fun segments =>
        (Step.segments? ⟨.index position, others⟩).map (segments ++ ·)) := by
  unfold Step.segments?
  cases isFirst : step.selector.segment? <;>
    cases isPredicates : step.predicates.mapM Predicate.segment? <;>
    cases isOthers : others.mapM Predicate.segment? <;>
    simp [Predicate.segment?, Selector.segment?, isPredicates, isOthers]

theorem Query.directSegments?_index (before after : List Step) (step : Step) (position : Int)
    (others : List Predicate) :
    directSegments? ⟨before ++
        { step with predicates := step.predicates ++ .index position :: others } :: after⟩ =
      directSegments? ⟨before ++ step :: ⟨.index position, others⟩ :: after⟩ := by
  unfold directSegments?
  simp only [List.mapM_append, List.mapM_cons, Step.segments?_index]
  cases before.mapM Step.segments? <;> cases step.segments? <;>
    cases Step.segments? ⟨.index position, others⟩ <;> cases after.mapM Step.segments? <;> simp

/-- A query is direct exactly if it spells segments. It then has an answer, without an error and
without a notice: the place that the segments name from where it begins, one after the other, and no
match if they name none. So queries of the same segments have the same answer, and an index may be a
step of its own or a predicate of the step before. -/
theorem direct_query_walks (query : Query) :
    (query.isDirect = true ↔ query.directSegments?.isSome = true) ∧
      ∀ segments, query.directSegments? = some segments → ∀ (context : Context) (place : Place),
        (∃ found : Option Place, query.execute context place = pure (found.toList.map .node) ∧
          ∀ last, found = some last ↔ place.NamesAll segments last) ∧
        (∀ other : Query, other.directSegments? = some segments →
          other.execute context place = query.execute context place) ∧
        ∀ before step position others after,
          query.steps = before ++ step :: ⟨.index position, others⟩ :: after →
          Query.execute ⟨before ++
              { step with predicates := step.predicates ++ .index position :: others } :: after⟩
            context place = query.execute context place := by
  constructor
  · rw [query.isDirect_eq_isSome]
  · intro segments spelled context place
    have same (other : Query) (otherSpelled : other.directSegments? = some segments) :
        other.execute context place = query.execute context place := by
      rw [Query.execute_direct spelled, Query.execute_direct otherSpelled]
    refine ⟨?_, same, ?_⟩
    · exact ⟨Node.walkAll? place segments, Query.execute_direct spelled context place,
        fun last => Place.walkAll?_eq_some_iff⟩
    · intro before step position others after isSteps
      apply same
      rw [Query.directSegments?_index, ← isSteps]
      exact spelled

/-- The last element, as a step and as a predicate, and then an element whose position is spelled
with a plus sign. -/
theorem direct_query_walks_nested :
    let place := Place.root
      (.object [("a", .array [.null, .array [.bool true, .bool false]])])
    let found : Place := ⟨.bool false, [1, 1, 0]⟩
    let segments := [.key "a", .index (-1), .key "+1"]
    let context : Context := ⟨.builtIn, defaultMaxDepth⟩
    let apart : Query := ⟨[⟨.field "a", []⟩, ⟨.index (-1), []⟩, ⟨.field "+1", []⟩]⟩
    let joined : Query := ⟨[⟨.field "a", [.index (-1)]⟩, ⟨.field "+1", []⟩]⟩
    apart.directSegments? = some segments ∧ place.NamesAll segments found ∧
      apart.execute context place = pure [.node found] ∧
      joined.execute context place = apart.execute context place := by
  intro place found segments context apart joined
  have spelled : apart.directSegments? = some segments := rfl
  let pair : Json := .array [.bool true, .bool false]
  have member : place.Names (.key "a") (place.child 0 (.array [.null, pair])) :=
    .member rfl rfl (by simp)
  have lastElement : (place.child 0 (.array [.null, pair])).Names (.index (-1)) ⟨pair, [1, 0]⟩ :=
    @Place.Names.fromEnd _ [.null, pair] 1 pair rfl rfl
  have isOne : Digits.Spells "+1".toList 1 :=
    ⟨['1'], .inr (by decide), by simp [Json.DigitText], rfl, by decide⟩
  have secondElement : (⟨pair, [1, 0]⟩ : Place).Names (.key "+1") found :=
    .spelled rfl rfl isOne
  have names : place.NamesAll segments found :=
    .more member (.more lastElement (.more secondElement .nothing))
  obtain ⟨⟨answer, isAnswer, isNamed⟩, _, rejoined⟩ :=
    (direct_query_walks apart).2 segments spelled context place
  have isFound : answer = some found := (isNamed found).mpr names
  refine ⟨spelled, names, ?_, rejoined [] ⟨.field "a", []⟩ (-1) [] [⟨.field "+1", []⟩] rfl⟩
  rw [isAnswer, isFound]
  rfl

end JsonQuery
