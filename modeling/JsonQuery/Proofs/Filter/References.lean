import JsonQuery.Proofs.Selection.Walks

/-!
References and direct queries. A filter follows a reference with a walk of its own, which takes a
name for that of a member only. Where no name spells a position, the two walks go the same way.
-/

namespace JsonQuery

/-! ## Following -/

namespace Place

variable (place : Place)

/-- A reference follows a position as a query does. It checks neither that the node is an array nor
that the array is long enough, but then no element is found. -/
theorem follow?_index (position : Int) :
    Node.follow? place (.index position) = Node.walk? place (.index position) := by
  have kind : Node.kind place = place.value.kind := rfl
  have element (index : Nat) : Node.element place index = place.elements[index]? := rfl
  unfold Node.follow? Node.walk?
  cases value : place.value with
  | array elements =>
      simp only [kind, value, Json.kind, length_of_array value, resolveIndex?]
      generalize fromStart elements.length position = counted
      rcases lt_or_ge counted 0 with negative | notNegative
      · simp [negative, negative.not_ge]
      · rcases lt_or_ge counted elements.length with inside | beyond
        · simp [notNegative, notNegative.not_gt, inside]
        · have nothing : Node.element place counted.toNat = none := by
            apply List.getElem?_eq_none
            simp only [Place.elements, value, List.length_mapIdx]
            omega
          simp [notNegative.not_gt, beyond.not_gt, nothing]
  | null | bool | number | string | object =>
      simp [kind, element, value, Json.kind, Place.elements]

theorem follow?_key {name : String} (unspelled : Digits.readCount? name.toList = none) :
    Node.follow? place (.key name) = Node.walk? place (.key name) := by
  have kind : Node.kind place = place.value.kind := rfl
  have field : Node.field place name = place.members.lookup name := rfl
  unfold Node.follow? Node.walk?
  cases value : place.value <;> simp [kind, field, value, Json.kind, unspelled, Place.members]

end Place

def Unspelled (segments : List Segment) : Prop :=
  ∀ name, .key name ∈ segments → Digits.readCount? name.toList = none

theorem Place.followAll?_eq_walkAll? {segments : List Segment} (unspelled : Unspelled segments) :
    ∀ place : Place, Node.followAll? place segments = Node.walkAll? place segments := by
  induction segments with
  | nil => exact fun _ => rfl
  | cons segment segments induction =>
      intro place
      have same : Node.follow? place segment = Node.walk? place segment := by
        cases segment with
        | key name => exact place.follow?_key (unspelled name (by simp))
        | index position => exact place.follow?_index position
      have others : Unspelled segments := fun name there => unspelled name (by simp [there])
      simp only [Node.followAll?, Node.walkAll?, List.foldlM_cons, same] at induction ⊢
      exact congrArg _ (funext (induction others))

/-! ## The query of some segments -/

def Segment.step : Segment → Step
  | .key name => ⟨.field name, []⟩
  | .index position => ⟨.index position, []⟩

def Query.along (segments : List Segment) : Query :=
  ⟨segments.map Segment.step⟩

theorem Query.directSegments?_along (segments : List Segment) :
    (along segments).directSegments? = some segments := by
  have spelled (segment : Segment) : segment.step.segments? = some [segment] := by
    cases segment <;> rfl
  have singles : segments.mapM (fun segment => some [segment]) =
      some (segments.map fun segment => [segment]) := List.mapM_pure
  simp [along, directSegments?, List.mapM_map, Function.comp_def, spelled, singles,
    ← List.flatMap_def]

theorem follow?_word {ν : Type} [Node ν] (node : ν)
    (short : Node.length node < 0x8000000000000000) (position : Int64) :
    Node.follow? node (.index position.toInt) =
      (Word.index? (Node.length node) position).bind (Node.element node) := by
  unfold Node.follow? Word.index?
  simp only [Int64.lt_iff_toInt_lt, Int64.toInt_zero, Word.toInt_fromStart short]
  split <;> rfl

/-- Where no name spells a position, a reference leads from a node of a tree to the very node that
is the match of a direct query of the same segments, and nowhere if that has no match. In words of
64 bits a reference counts positions without an overflow, for an array of less than 2 ^ 63 elements,
and it comes to the index that a query resolves them to, or to one beyond the last element. -/
theorem references_as_direct_queries :
    (∀ segments, Unspelled segments → ∀ (context : Context) (place : Place),
      (Query.along segments).directSegments? = some segments ∧
      ∀ query : Query, query.directSegments? = some segments →
        query.execute context place =
          pure ((Node.followAll? place segments).toList.map .node)) ∧
    ∀ (length : Nat) (position : Int64), length < 0x8000000000000000 →
      (position < 0 →
        (Int64.ofNat length).toBitVec.saddOverflow position.toBitVec = false) ∧
      resolveIndex? position.toInt length = (Word.index? length position).filter (· < length) ∧
      ∀ place : Place, Node.length place = length →
        Node.follow? place (.index position.toInt) =
          (Word.index? length position).bind (Node.element place) := by
  constructor
  · intro segments unspelled context place
    refine ⟨Query.directSegments?_along segments, fun query spelled => ?_⟩
    rw [Query.execute_direct spelled, Place.followAll?_eq_walkAll? unspelled]
  · intro length position short
    refine ⟨Word.not_overflow short position, Word.resolveIndex?_eq_filter short position, ?_⟩
    rintro place rfl
    exact follow?_word place short position

theorem references_as_direct_queries_signed :
    let place := Place.root (.object [("a", .array [.object [("-0", .null)], .bool true])])
    let segments := [.key "a", .index (-2), .key "-0"]
    let context : Context := ⟨.builtIn, defaultMaxDepth⟩
    Unspelled segments ∧ Node.followAll? place segments = some ⟨.null, [0, 0, 0]⟩ ∧
      (Query.along segments).execute context place = pure [.node ⟨.null, [0, 0, 0]⟩] ∧
      (Int64.ofNat 2).toBitVec.saddOverflow Int64.minValue.toBitVec = false ∧
      resolveIndex? Int64.minValue.toInt 2 = none := by
  intro place segments context
  have unspelled : Unspelled segments := by
    intro name there
    have names : name = "a" ∨ name = "-0" := by simpa [segments] using there
    rcases names with rfl | rfl <;> decide
  obtain ⟨walks, counts⟩ := references_as_direct_queries
  obtain ⟨spelled, executed⟩ := walks segments unspelled context place
  obtain ⟨notOverflow, resolved, _⟩ := counts 2 Int64.minValue (by decide)
  refine ⟨unspelled, rfl, ?_, notOverflow (by decide), ?_⟩
  · rw [executed _ spelled]
    rfl
  · rw [resolved]
    decide

end JsonQuery
