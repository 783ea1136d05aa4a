import JsonQuery.Filter.Compare

/-!
What a comparison can tell. Of two operands there is one verdict: they cannot be compared, or it is
known whether they are equal, or in which order they are. All operators read their answers off it,
so they never contradict each other, although literals, values and what is absent are compared in
ways of their own.
-/

namespace JsonQuery

/-! ## Verdicts -/

inductive Verdict where
  | incomparable
  | equality (sidesEqual : Bool)
  | order (ordering : Ordering)

namespace Verdict

def satisfies : Verdict → Operator → Bool
  | .incomparable, _ => false
  | .equality sidesEqual, operator => operator.holdsEquality sidesEqual
  | .order ordering, operator => operator.holds ordering

def isOrder : Verdict → Bool
  | .order _ => true
  | _ => false

def converse : Verdict → Verdict
  | .order ordering => .order ordering.swap
  | verdict => verdict

theorem satisfies_converse (verdict : Verdict) (operator : Operator) :
    verdict.satisfies operator.converse = verdict.converse.satisfies operator := by
  cases verdict with
  | incomparable => rfl
  | equality sidesEqual => cases operator <;> rfl
  | order ordering => cases ordering <;> cases operator <;> rfl

theorem isOrder_converse (verdict : Verdict) : verdict.converse.isOrder = verdict.isOrder := by
  cases verdict <;> rfl

end Verdict

namespace Operator

def isOrdering : Operator → Bool
  | .less | .lessOrEqual | .greater | .greaterOrEqual => true
  | _ => false

structure Coherent (holds : Operator → Bool) : Prop where
  /-- The sides are equal or not, unless nothing at all can be told. -/
  equality : holds .notEqual = !holds .equal ∨ ∀ operator, holds operator = false
  distinct : [Operator.less, .equal, .greater].countP holds ≤ 1
  notEqual_of_order : holds .less ∨ holds .greater → holds .notEqual
  less_or_equal : holds .lessOrEqual → holds .less ∨ holds .equal
  greater_or_equal : holds .greaterOrEqual → holds .greater ∨ holds .equal
  lessOrEqual_of_less : holds .less → holds .lessOrEqual
  greaterOrEqual_of_greater : holds .greater → holds .greaterOrEqual
  total : holds .lessOrEqual ∨ holds .greaterOrEqual →
    [Operator.less, .equal, .greater].countP holds = 1
  logical : ∀ operator : Operator, operator.isLogical → holds operator = false

end Operator

namespace Verdict

theorem satisfies_notEqual (verdict : Verdict) :
    verdict.satisfies .notEqual = !verdict.satisfies .equal ∨
      ∀ operator, verdict.satisfies operator = false := by
  cases verdict with
  | incomparable => exact .inr fun _ => rfl
  | equality sidesEqual => exact .inl rfl
  | order ordering => cases ordering <;> exact .inl rfl

theorem satisfies_logical (verdict : Verdict) (operator : Operator) (logical : operator.isLogical) :
    verdict.satisfies operator = false := by
  cases operator with
  | and | or => cases verdict <;> rfl
  | equal | notEqual | less | lessOrEqual | greater | greaterOrEqual => cases logical

theorem coherent (verdict : Verdict) : Operator.Coherent verdict.satisfies := by
  have equality := verdict.satisfies_notEqual
  have logical := verdict.satisfies_logical
  cases verdict with
  | incomparable => constructor <;> first | assumption | decide
  | equality sidesEqual => cases sidesEqual <;> constructor <;> first | assumption | decide
  | order ordering => cases ordering <;> constructor <;> first | assumption | decide

theorem satisfies_of_not_isOrder {verdict : Verdict} (noOrder : verdict.isOrder = false)
    {operator : Operator} (ordering : operator.isOrdering) :
    verdict.satisfies operator = false := by
  cases verdict with
  | incomparable => rfl
  | equality sidesEqual => cases operator <;> first | rfl | cases ordering
  | order ordering => cases noOrder

end Verdict

/-! ## Operands -/

def Json.isScalar (value : Json) : Bool :=
  !value.isContainer

def Operand.isScalar : Operand → Bool
  | .absent => false
  | .literal _ => true
  | .value found => found.isScalar

theorem Json.isScalar_of_asNumber? {candidate : Option Json} {number : Double}
    (isNumber : candidate.bind asNumber? = some number) : candidate.any isScalar = true := by
  obtain ⟨value, rfl, read⟩ := Option.bind_eq_some_iff.mp isNumber
  cases value with
  | array | object => cases read
  | null | bool | number | string => rfl

namespace Operator

/-- The answers for all operators come from one verdict, which is an order only between sides that
may have one. -/
def Settled (mayOrder : Bool) (answers : Operator → Bool) : Prop :=
  ∃ verdict : Verdict, answers = verdict.satisfies ∧ (mayOrder = false → verdict.isOrder = false)

theorem Settled.mono {mayOrder other : Bool} {answers : Operator → Bool}
    (settled : Settled mayOrder answers) (less : other = false → mayOrder = false) :
    Settled other answers := by
  obtain ⟨verdict, same, noOrder⟩ := settled
  exact ⟨verdict, same, fun unordered => noOrder (less unordered)⟩

theorem Settled.converse {mayOrder : Bool} {answers : Operator → Bool}
    (settled : Settled mayOrder answers) :
    Settled mayOrder fun operator => answers operator.converse := by
  obtain ⟨verdict, rfl, noOrder⟩ := settled
  refine ⟨verdict.converse, funext verdict.satisfies_converse, ?_⟩
  intro unordered
  rw [verdict.isOrder_converse, noOrder unordered]

theorem settled_compareWith (candidate : Option Json) (literal : Literal) :
    Settled (candidate.any Json.isScalar) (·.compareWith candidate literal) := by
  cases literal with
  | null => exact ⟨.equality _, rfl, fun _ => rfl⟩
  | bool expected =>
      simp only [compareWith]
      cases candidate.bind Json.asBool? with
      | none => exact ⟨.incomparable, rfl, fun _ => rfl⟩
      | some actual => exact ⟨.equality (actual == expected), rfl, fun _ => rfl⟩
  | string expected =>
      cases candidate with
      | none => exact ⟨.incomparable, rfl, fun _ => rfl⟩
      | some value =>
          cases value with
          | string actual => exact ⟨.order (Ord.compare actual expected), rfl, nofun⟩
          | null | bool | number | array | object =>
              exact ⟨.incomparable, rfl, fun _ => rfl⟩
  | number expected =>
      simp only [compareWith]
      cases found : (candidate.bind Json.asNumber?).bind (·.compare? expected) with
      | none => exact ⟨.incomparable, rfl, fun _ => rfl⟩
      | some ordering =>
          obtain ⟨number, isNumber, _⟩ := Option.bind_eq_some_iff.mp found
          rw [Json.isScalar_of_asNumber? isNumber]
          exact ⟨.order ordering, rfl, nofun⟩

theorem settled_compareWithValue (candidate : Option Json) (value : Json) :
    Settled (candidate.any Json.isScalar) (·.compareWithValue candidate value) := by
  simp only [compareWithValue]
  cases value.toLiteral? with
  | none => exact ⟨.incomparable, rfl, fun _ => rfl⟩
  | some literal => exact settled_compareWith candidate literal

theorem settled_compareValues (left right : Json) :
    Settled (left.isScalar && right.isScalar) (·.compareValues left right) := by
  by_cases container : (left.isContainer || right.isContainer) = true
  · simp only [compareValues, if_pos container]
    exact ⟨.equality (left.equals right), rfl, fun _ => rfl⟩
  · simp only [compareValues, if_neg container]
    have both : (left.isScalar && right.isScalar) = true := by
      simpa [Json.isScalar] using container
    rw [both]
    apply (settled_compareWithValue (some left) right).mono
    exact nofun

theorem settled_compare (left right : Operand) :
    Settled (left.isScalar && right.isScalar) (·.compare left right) := by
  cases left with
  | absent =>
      cases right with
      | absent => exact settled_compareWith none .null
      | literal constant => exact settled_compareWith none constant
      | value found => exact settled_compareWithValue none found
  | literal constant =>
      cases right with
      | absent => exact (settled_compareWith none constant).converse
      | literal other =>
          apply (settled_compareWith (some constant.toJson) other).mono
          exact nofun
      | value found => exact (settled_compareWith (some found) constant).converse
  | value found =>
      cases right with
      | absent =>
          apply (settled_compareWithValue none found).converse.mono
          exact fun _ => rfl
      | literal constant =>
          apply (settled_compareWith (some found) constant).mono
          simp [Operand.isScalar]
      | value other => exact settled_compareValues found other

end Operator

/-- The operators never contradict each other, whatever two operands they compare; and a side that
is absent, an array or an object is not put in order with anything. -/
theorem compare_coherent (left right : Operand) :
    Operator.Coherent (·.compare left right) ∧
      (left.isScalar = false ∨ right.isScalar = false →
        ∀ operator : Operator, operator.isOrdering → operator.compare left right = false) := by
  obtain ⟨verdict, same, noOrder⟩ := Operator.settled_compare left right
  constructor
  · rw [same]
    exact verdict.coherent
  · intro unordered operator ordering
    have nowhere : (left.isScalar && right.isScalar) = false :=
      Bool.and_eq_false_iff.mpr unordered
    rw [congrFun same operator]
    exact Verdict.satisfies_of_not_isOrder (noOrder nowhere) ordering

theorem compare_coherent_infinite :
    let least := Operand.literal (.number (.infinite true))
    let one := Operand.value (.number (.integer 1))
    let nothing := Operand.value (.array [])
    Operator.less.compare least one = true ∧ Operator.notEqual.compare least one = true ∧
      nothing.isScalar = false ∧ Operator.lessOrEqual.compare least nothing = false := by
  intro least one nothing
  have isLess : Operator.less.compare least one = true := by decide +kernel
  have noScalar : nothing.isScalar = false := rfl
  refine ⟨isLess, ?_, noScalar, ?_⟩
  · exact (compare_coherent least one).1.notEqual_of_order (.inl isLess)
  · exact (compare_coherent least nothing).2 (.inr noScalar) .lessOrEqual rfl

end JsonQuery
