import JsonQuery.Filter.Evaluate
import JsonQuery.Proofs.Number.Ordering
import JsonQuery.Source.Tree
import Mathlib

/-!
Comparing integers. A filter knows one kind of number, the double, so two integers are compared
through the doubles nearest to them. This gives the order of the integers, unless both have the same
nearest double: then they are equal for every operator, and this takes more than 53 bits on each
side.
-/

namespace JsonQuery

namespace Operator

/-- The relation of integers that an operator stands for. The logical ones stand for none. -/
def Relates : Operator → Int → Int → Prop
  | .equal, left, right => left = right
  | .notEqual, left, right => left ≠ right
  | .less, left, right => left < right
  | .lessOrEqual, left, right => left ≤ right
  | .greater, left, right => right < left
  | .greaterOrEqual, left, right => right ≤ left
  | .and, _, _ | .or, _, _ => False

variable (operator : Operator)

theorem holds_compare_iff {left right : Int} :
    operator.holds (Ord.compare left right) = true ↔ operator.Relates left right := by
  rcases lt_trichotomy left right with less | equal | greater
  · rw [compare_lt_iff_lt.mpr less]
    cases operator <;> simp [holds, Relates] <;> omega
  · rw [compare_eq_iff_eq.mpr equal]
    cases operator <;> simp [holds, Relates] <;> omega
  · rw [compare_gt_iff_gt.mpr greater]
    cases operator <;> simp [holds, Relates] <;> omega

theorem compare_numbers (left right : Number) :
    operator.compare (.value (.number left)) (.value (.number right)) =
      (left.toDouble.compare? right.toDouble).elim false operator.holds := by
  simp only [Operator.compare, compareValues, Json.isContainer, Json.kind, Kind.isContainer,
    Bool.or_self, Bool.false_eq_true, if_false, compareWithValue, Json.toLiteral?, compareWith,
    Option.bind_some, Json.asNumber?]
  cases left.toDouble.compare? right.toDouble <;> rfl

/-- Two integers are compared in the order of their nearest doubles. -/
theorem compare_integer_values {left right : Int} (leftHeld : Number.holdsInteger left = true)
    (rightHeld : Number.holdsInteger right = true) :
    operator.compare (.value (.number (.integer left))) (.value (.number (.integer right))) =
      operator.holds
        (if Double.ofInt left = Double.ofInt right then .eq else Ord.compare left right) := by
  rw [compare_numbers, Number.toDouble, Number.toDouble, Double.compare?_ofInt leftHeld rightHeld,
    Option.elim_some]

end Operator

section References

variable {ν : Type} [Node ν] {node : ν}

theorem Expression.resolveReference_eq {segments : List Segment} {found : ν} {value : Json}
    (leads : Node.followAll? node segments = some found) (decodes : Node.decode found = .ok value) :
    resolveReference node segments = pure (.value value) := by
  simp only [resolveReference, leads, decodes]
  rfl

/-- A comparison of two references compares the values that they lead to. -/
theorem Expression.evaluate_references (context : Context) {operator : Operator}
    (comparison : operator.isLogical = false) {first second : List Segment}
    {left right : ν} {leftValue rightValue : Json}
    (leadsLeft : Node.followAll? node first = some left)
    (isLeft : Node.decode left = .ok leftValue)
    (leadsRight : Node.followAll? node second = some right)
    (isRight : Node.decode right = .ok rightValue) :
    (Expression.binary operator (.reference first) (.reference second)).evaluate context node =
      pure (operator.compare (.value leftValue) (.value rightValue)) := by
  have resolvesLeft := resolveReference_eq leadsLeft isLeft
  have resolvesRight := resolveReference_eq leadsRight isRight
  cases operator with
  | and | or => cases comparison
  | equal | notEqual | less | lessOrEqual | greater | greaterOrEqual =>
      simp only [evaluate, resolve, resolvesLeft, resolvesRight]
      rfl

end References

/-- Integers are compared through doubles. Between integers that JSON can hold, which two references
lead to, a comparison holds exactly if the integers are in this relation, unless they are different
and have the same nearest double: then it holds exactly if it holds of an integer and itself. Only
integers of which neither has a magnitude below 2 ^ 53 can share a double. -/
theorem compare_integers (operator : Operator) {left right : Int}
    (leftHeld : Number.holdsInteger left = true) (rightHeld : Number.holdsInteger right = true) :
    (left = right ∨ Double.ofInt left ≠ Double.ofInt right →
      (operator.compare (.value (.number (.integer left)))
          (.value (.number (.integer right))) = true ↔
        operator.Relates left right)) ∧
    (left ≠ right → Double.ofInt left = Double.ofInt right →
      (operator.compare (.value (.number (.integer left)))
          (.value (.number (.integer right))) = true ↔
        operator.Relates left left) ∧
      2 ^ 53 ≤ left.natAbs ∧ 2 ^ 53 ≤ right.natAbs) ∧
    ∀ {ν : Type} [Node ν] (context : Context) (node : ν) {first second : List Segment}
      {leftNode rightNode : ν}, operator.isLogical = false →
      Node.followAll? node first = some leftNode →
      Node.decode leftNode = .ok (.number (.integer left)) →
      Node.followAll? node second = some rightNode →
      Node.decode rightNode = .ok (.number (.integer right)) →
      (Expression.binary operator (.reference first) (.reference second)).evaluate context node =
        pure (operator.compare (.value (.number (.integer left)))
          (.value (.number (.integer right)))) := by
  have compared := operator.compare_integer_values leftHeld rightHeld
  have itself : Ordering.eq = Ord.compare left left := (compare_eq_iff_eq.mpr rfl).symm
  refine ⟨?_, ?_, ?_⟩
  · intro apart
    have ordering :
        (if Double.ofInt left = Double.ofInt right then .eq else Ord.compare left right) =
          Ord.compare left right := by
      rcases apart with equal | apart
      · rw [← equal, if_pos rfl, itself]
      · exact if_neg apart
    rw [compared, ordering, operator.holds_compare_iff]
  · intro different same
    refine ⟨?_, ?_, ?_⟩
    · rw [compared, if_pos same, itself, operator.holds_compare_iff]
    · by_contra small
      apply different
      exact Double.eq_of_ofInt_eq leftHeld rightHeld (Nat.not_le.mp small) same
    · by_contra small
      apply different.symm
      exact Double.eq_of_ofInt_eq rightHeld leftHeld (Nat.not_le.mp small) same.symm
  · intro ν _ context node first second leftNode rightNode comparison leadsLeft isLeft leadsRight
      isRight
    exact Expression.evaluate_references context comparison leadsLeft isLeft leadsRight isRight

/-- Neighbours above 2 ^ 53 that have different nearest doubles, in the fields of an object. -/
theorem compare_integers_neighbours :
    let place := Place.root (.object
      [("a", .number (.integer 9007199254740993)), ("b", .number (.integer 9007199254740994))])
    let context : Context := ⟨.builtIn, defaultMaxDepth⟩
    Double.ofInt 9007199254740993 ≠ Double.ofInt 9007199254740994 ∧
      (Expression.binary .less (.reference [.key "a"]) (.reference [.key "b"])).evaluate context
        place = pure true := by
  intro place context
  have apart : Double.ofInt 9007199254740993 ≠ Double.ofInt 9007199254740994 := by decide +kernel
  have leftHeld : Number.holdsInteger 9007199254740993 = true := by decide
  have rightHeld : Number.holdsInteger 9007199254740994 = true := by decide
  obtain ⟨exact, _, fields⟩ := compare_integers .less leftHeld rightHeld
  have less := (exact (.inr apart)).mpr (by simp [Operator.Relates])
  let left : Place := place.child 0 (.number (.integer 9007199254740993))
  let right : Place := place.child 1 (.number (.integer 9007199254740994))
  have leadsLeft : Node.followAll? place [.key "a"] = some left := rfl
  have leadsRight : Node.followAll? place [.key "b"] = some right := rfl
  have evaluated := fields context place rfl leadsLeft rfl leadsRight rfl
  rw [less] at evaluated
  exact ⟨apart, evaluated⟩

/-- Two integers whose nearest double is the same, although they are different. -/
theorem compare_integers_shared :
    Number.holdsInteger 9007199254740992 = true ∧ Number.holdsInteger 9007199254740993 = true ∧
      Operator.equal.compare (.value (.number (.integer 9007199254740992)))
        (.value (.number (.integer 9007199254740993))) = true ∧
      ¬Operator.equal.Relates 9007199254740992 9007199254740993 := by
  have same : Double.ofInt 9007199254740992 = Double.ofInt 9007199254740993 := by decide +kernel
  have leftHeld : Number.holdsInteger 9007199254740992 = true := by decide
  have rightHeld : Number.holdsInteger 9007199254740993 = true := by decide
  refine ⟨leftHeld, rightHeld, ?_, by simp [Operator.Relates]⟩
  rw [Operator.equal.compare_integer_values leftHeld rightHeld, if_pos same]
  rfl

end JsonQuery
