import JsonQuery.Path.Grammar
import JsonQuery.Proofs.Filter.Comparison
import Mathlib

/-!
Comparisons with their sides exchanged. A literal on one side alone decides how the other side is
read, so the converse operator says the same of the sides exchanged. Of two literals the right one
decides, and there are pairs of which only one can be read by the other. `Literal.OneWay` lists
them, and `compare_converse_iff` says that nothing else makes a difference.
-/

namespace JsonQuery

theorem Operator.converse_converse (operator : Operator) :
    operator.converse.converse = operator := by
  cases operator <;> rfl

namespace Literal

/-! ## What a literal makes of the other side -/

def verdict (candidate : Option Json) : Literal → Verdict
  | .null =>
    .equality <| match candidate with
      | none | some .null => true
      | some _ => false
  | .bool expected =>
    match candidate.bind Json.asBool? with
    | some actual => .equality (actual == expected)
    | none => .incomparable
  | .string expected =>
    match candidate with
    | some (.string actual) => .order (Ord.compare actual expected)
    | _ => .incomparable
  | .number expected =>
    match (candidate.bind Json.asNumber?).bind (·.compare? expected) with
    | some ordering => .order ordering
    | none => .incomparable

theorem satisfies_verdict (operator : Operator) (candidate : Option Json) (literal : Literal) :
    operator.compareWith candidate literal = (literal.verdict candidate).satisfies operator := by
  cases literal with
  | null => rfl
  | bool expected =>
      simp only [Operator.compareWith, verdict]
      cases candidate.bind Json.asBool? <;> rfl
  | string expected =>
      cases candidate with
      | none => rfl
      | some value => cases value <;> rfl
  | number expected =>
      simp only [Operator.compareWith, verdict]
      cases (candidate.bind Json.asNumber?).bind (·.compare? expected) <;> rfl

/-- The verdict on two literals. The left one counts as a value, which the right one reads. -/
def readBy (left right : Literal) : Verdict :=
  right.verdict (some left.toJson)

theorem compare_literals (operator : Operator) (left right : Literal) :
    operator.compare (.literal left) (.literal right) =
      (left.readBy right).satisfies operator :=
  satisfies_verdict operator (some left.toJson) right

/-! ## Literals that can be read one way only -/

inductive OneWay : Literal → Literal → Verdict → Prop
  | present {value : Literal} (isValue : value.toJson.kind ≠ .null) :
      OneWay value .null (.equality false)
  | unwritable {number : Double} (notFinite : number.finite? = none) :
      OneWay (.number number) .null (.equality true)
  | truth {number : FiniteDouble} {expected : Bool} :
      OneWay (.number (.finite number)) (.bool expected) (.equality ((!number.isZero) == expected))
  | word {text : String} {actual expected : Bool}
      (isWord : (Json.string text).asBool? = some actual) :
      OneWay (.string text) (.bool expected) (.equality (actual == expected))
  | numeral {text : String} {number expected : Double} {ordering : Ordering}
      (isNumeral : (Json.string text).asNumber? = some number)
      (compared : number.compare? expected = some ordering) :
      OneWay (.string text) (.number expected) (.order ordering)
  /-- A finite number is below or above an infinity on its right; on its left the infinity is no
  number any more. -/
  | bounded {number : FiniteDouble} {expected : Double} {ordering : Ordering}
      (notFinite : expected.finite? = none)
      (compared : (Double.finite number).compare? expected = some ordering) :
      OneWay (.number (.finite number)) (.number expected) (.order ordering)

theorem toJson_of_not_finite {number : Double} (notFinite : number.finite? = none) :
    (Literal.number number).toJson = .null := by
  cases number with
  | notANumber | infinite => rfl
  | finite value => cases notFinite

/-- The literals in an order in which none can read one before it. -/
def rank : Literal → Nat
  | .null => 0
  | .bool _ => 1
  | .number _ => 2
  | .string _ => 3

theorem readBy_of_rank_lt {left right : Literal} (lower : left.rank < right.rank) :
    left.readBy right = .incomparable := by
  cases left with
  | null =>
      cases right with
      | null => cases lower
      | bool | number | string => rfl
  | bool value =>
      cases right with
      | number | string => rfl
      | null | bool => simp [rank] at lower
  | number value =>
      cases right with
      | string expected => cases value <;> rfl
      | null | bool | number => simp [rank] at lower
  | string text => cases right <;> simp [rank] at lower

theorem rank_null_lt {value : Literal} (notNull : value ≠ .null) :
    Literal.null.rank < value.rank := by
  cases value with
  | null => exact absurd rfl notNull
  | bool | number | string => exact Nat.succ_pos _

theorem readBy_null (value : Literal) :
    value.readBy .null = .equality (value.toJson.kind == .null) := by
  cases value with
  | null | bool | string => rfl
  | number number => cases number <;> rfl

theorem OneWay.readBy {left right : Literal} {verdict : Verdict}
    (oneWay : OneWay left right verdict) :
    left.readBy right = verdict ∧ right.readBy left = .incomparable := by
  cases oneWay with
  | present isValue =>
      have notNull : left ≠ .null := by
        rintro rfl
        exact isValue rfl
      rw [readBy_null, beq_eq_false_iff_ne.mpr isValue]
      exact ⟨rfl, readBy_of_rank_lt (rank_null_lt notNull)⟩
  | unwritable notFinite =>
      rw [readBy_null, toJson_of_not_finite notFinite]
      exact ⟨rfl, readBy_of_rank_lt (rank_null_lt nofun)⟩
  | truth => exact ⟨rfl, readBy_of_rank_lt (Nat.lt_succ_self 1)⟩
  | word isWord =>
      refine ⟨?_, readBy_of_rank_lt (show 1 < 3 by decide)⟩
      simp only [Literal.readBy, verdict, toJson, Option.bind_some, isWord]
  | numeral isNumeral compared =>
      refine ⟨?_, readBy_of_rank_lt (Nat.lt_succ_self 2)⟩
      simp only [Literal.readBy, verdict, toJson, Option.bind_some, isNumeral, compared]
  | @bounded number expected ordering notFinite compared =>
      have isNumber : (Literal.number (.finite number)).toJson.asNumber? =
          some (.finite number) := rfl
      constructor
      · simp only [Literal.readBy, verdict, Option.bind_some, isNumber, compared]
      · rw [Literal.readBy, toJson_of_not_finite notFinite]
        rfl

theorem readBy_of_rank_gt {left right : Literal} (higher : right.rank < left.rank) :
    left.readBy right = .incomparable ∨ OneWay left right (left.readBy right) := by
  cases right with
  | null =>
      right
      rw [readBy_null]
      by_cases isNull : left.toJson.kind = .null
      · cases left with
        | null => cases higher
        | bool | string => cases isNull
        | number number =>
            rw [isNull]
            cases number with
            | notANumber | infinite => exact .unwritable rfl
            | finite => cases isNull
      · rw [beq_eq_false_iff_ne.mpr isNull]
        exact .present isNull
  | bool expected =>
      cases left with
      | null | bool => simp [rank] at higher
      | number number =>
          cases number with
          | notANumber | infinite => exact .inl rfl
          | finite number => exact .inr .truth
      | string text =>
          simp only [readBy, verdict, toJson, Option.bind_some]
          cases isWord : (Json.string text).asBool? with
          | none => exact .inl rfl
          | some actual => exact .inr (.word isWord)
  | number expected =>
      cases left with
      | null | bool | number => simp [rank] at higher
      | string text =>
          simp only [readBy, verdict, toJson, Option.bind_some]
          cases isNumeral : (Json.string text).asNumber? with
          | none => exact .inl rfl
          | some number =>
              rw [Option.bind_some]
              cases compared : number.compare? expected with
              | none => exact .inl rfl
              | some ordering => exact .inr (.numeral isNumeral compared)
  | string expected => cases left <;> simp [rank] at higher

theorem readBy_number (left right : Double) :
    (Literal.number left).readBy (.number right) =
        ((Literal.number right).readBy (.number left)).converse ∨
      OneWay (.number left) (.number right) ((Literal.number left).readBy (.number right)) ∨
      OneWay (.number right) (.number left) ((Literal.number right).readBy (.number left)) := by
  cases left with
  | notANumber => cases right <;> exact .inl rfl
  | infinite negative =>
      cases right with
      | notANumber | infinite => exact .inl rfl
      | finite right => exact .inr (.inr (.bounded rfl rfl))
  | finite left =>
      cases right with
      | notANumber => exact .inl rfl
      | infinite negative => exact .inr (.inl (.bounded rfl rfl))
      | finite right => exact .inl (congrArg Verdict.order Std.OrientedCmp.eq_swap)

theorem readBy_cases (left right : Literal) :
    left.readBy right = (right.readBy left).converse ∨
      OneWay left right (left.readBy right) ∨ OneWay right left (right.readBy left) := by
  rcases Nat.lt_trichotomy left.rank right.rank with lower | same | higher
  · rw [readBy_of_rank_lt lower]
    rcases readBy_of_rank_gt lower with nothing | oneWay
    · exact .inl (by rw [nothing]; rfl)
    · exact .inr (.inr oneWay)
  · cases left with
    | null => cases right with
      | null => exact .inl rfl
      | bool | number | string => cases same
    | bool value => cases right with
      | bool other => exact .inl (congrArg Verdict.equality Bool.beq_comm)
      | null | number | string => cases same
    | number value => cases right with
      | number other => exact readBy_number value other
      | null | bool | string => cases same
    | string text => cases right with
      | string other => exact .inl (congrArg Verdict.order Std.OrientedCmp.eq_swap)
      | null | bool | number => cases same
  · rw [readBy_of_rank_lt higher]
    rcases readBy_of_rank_gt higher with nothing | oneWay
    · exact .inl (by rw [nothing]; rfl)
    · exact .inr (.inl oneWay)

end Literal

/-! ## Operands -/

inductive Operand.Skewed (operator : Operator) : Operand → Operand → Prop
  | onward {left right : Literal} {verdict : Verdict} (oneWay : left.OneWay right verdict)
      (holds : verdict.satisfies operator = true) : Skewed operator (.literal left) (.literal right)
  | backward {left right : Literal} {verdict : Verdict} (oneWay : right.OneWay left verdict)
      (holds : verdict.satisfies operator.converse = true) :
      Skewed operator (.literal left) (.literal right)

def Operand.isLiteral : Operand → Bool
  | .literal _ => true
  | _ => false

theorem Literal.exchanged_iff (operator : Operator) (left right : Literal) :
    operator.compare (.literal left) (.literal right) =
        operator.converse.compare (.literal right) (.literal left) ↔
      ¬Operand.Skewed operator (.literal left) (.literal right) := by
  rw [compare_literals, compare_literals]
  constructor
  · intro same skewed
    cases skewed with
    | onward oneWay holds =>
        rw [oneWay.readBy.1, oneWay.readBy.2, holds] at same
        cases same
    | backward oneWay holds =>
        rw [oneWay.readBy.1, oneWay.readBy.2, holds] at same
        cases same
  · intro level
    rcases left.readBy_cases right with same | oneWay | oneWay
    · rw [same, Verdict.satisfies_converse]
    · rw [oneWay.readBy.2, Verdict.satisfies, Bool.eq_false_iff]
      exact fun holds => level (.onward oneWay holds)
    · rw [oneWay.readBy.2, Verdict.satisfies, eq_comm, Bool.eq_false_iff]
      exact fun holds => level (.backward oneWay holds)

/-- If a literal stands on either side, a comparison says the same with its sides exchanged and the
converse operator, save between two literals of which one cannot read the other and the comparison
the other way holds. -/
theorem compare_converse_iff (operator : Operator) {left right : Operand}
    (literal : left.isLiteral = true ∨ right.isLiteral = true) :
    operator.compare left right = operator.converse.compare right left ↔
      ¬Operand.Skewed operator left right := by
  cases left with
  | literal left =>
      cases right with
      | literal right => exact Literal.exchanged_iff operator left right
      | absent | value => exact iff_of_true rfl nofun
  | absent | value =>
      cases right with
      | literal right =>
          refine iff_of_true ?_ nofun
          simp only [Operator.compare, operator.converse_converse]
      | absent | value => simp [Operand.isLiteral] at literal

theorem compare_converse_iff_overflow :
    let zero := Operand.literal (.number (.finite (.zero false)))
    let large := Operand.literal (.number (.infinite false))
    Double.read? "1e999".toList = some (.infinite false) ∧
      (zero.isLiteral = true ∨ large.isLiteral = true) ∧ Operand.Skewed .less zero large ∧
      Operator.less.compare zero large ≠ Operator.greater.compare large zero := by
  intro zero large
  have skewed : Operand.Skewed .less zero large := .onward (.bounded rfl rfl) rfl
  refine ⟨by rfl, .inl rfl, skewed, ?_⟩
  intro same
  exact (compare_converse_iff .less (.inl rfl)).mp same skewed

end JsonQuery
