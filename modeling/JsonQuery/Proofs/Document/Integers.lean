import JsonQuery.Document.Result
import JsonQuery.Proofs.Number.Quantities
import JsonQuery.Proofs.Outcome
import JsonQuery.Proofs.Path.WellFormed
import Mathlib

/-!
Results read as integers. A number is read exactly. A decimal in a string is rounded to the nearest
double first, so the integer is the one that the string spells if and only if some double has its
quantity.
-/

namespace JsonQuery

namespace Json

/-- The number that a value denotes: its own, or the one that a string spells. -/
def quantity? : Json → Option ℚ
  | .number (.integer whole) => some whole
  | .number (.double double) => some double.quantity
  | .string text => (Decimal.read? text.toList).map Decimal.quantity
  | _ => none

/-- A decimal in a string that no double has the quantity of. -/
inductive Coarse : Json → Prop
  | string {text : String} {decimal : Decimal} (spelled : Decimal.read? text.toList = some decimal)
      (notDouble : ¬IsDouble decimal.quantity) : Coarse (.string text)

/-- The number that is made of a value: what it denotes, save that decimals in strings are
rounded. -/
def rounded? : Json → Option ℚ
  | .string text =>
    match Double.read? text.toList with
    | some (.finite double) => some double.quantity
    | _ => none
  | value => value.quantity?

theorem finite?_eq_some {number : Double} {double : FiniteDouble} :
    number.finite? = some double ↔ number = .finite double := by
  cases number <;> simp [Double.finite?]

theorem asNumber?_string {text : String} {double : FiniteDouble} :
    (Json.string text).asNumber? = some (.finite double) ↔
      Double.read? text.toList = some (.finite double) := by
  simp only [asNumber?, Option.bind_eq_bind, Option.bind_eq_some_iff, Option.some.injEq,
    Double.finite.injEq, finite?_eq_some]
  constructor
  · rintro ⟨number, read, finite, rfl, rfl⟩
    exact read
  · intro read
    exact ⟨_, read, _, rfl, rfl⟩

/-- The integer of 64 bits that a value is read as by way of a double. -/
def wide? (value : Json) : Option Int := do
  let double ← value.asNumber?
  let finite ← double.finite?
  let whole ← finite.toInt?
  if -0x8000000000000000 ≤ whole ∧ whole < 0x8000000000000000 then some whole else none

theorem wide?_eq_some_iff {value : Json} {whole : Int} :
    value.wide? = some whole ↔ InRange whole ∧
      ∃ double : FiniteDouble, value.asNumber? = some (.finite double) ∧
        double.quantity = whole := by
  simp only [wide?, Option.bind_eq_bind, Option.bind_eq_some_iff, finite?_eq_some,
    FiniteDouble.toInt?_eq_some_iff, Option.ite_none_right_eq_some, Option.some.injEq]
  constructor
  · rintro ⟨_, isNumber, double, rfl, _, same, inRange, rfl⟩
    exact ⟨inRange, double, isNumber, same⟩
  · rintro ⟨inRange, double, isNumber, same⟩
    exact ⟨_, isNumber, double, rfl, whole, same, inRange, rfl⟩

theorem asInt?_eq_wide? {value : Json} (other : ∀ integer, value ≠ .number (.integer integer)) :
    value.asInt? = value.wide? := by
  unfold asInt?
  dsimp only
  split
  next integer => exact absurd rfl (other integer)
  next => rfl

theorem asInt?_integer (integer : Int) :
    (Json.number (.integer integer)).asInt? =
      if integer < 0x8000000000000000 then some integer else none := by
  show (if _ then _ else (Json.number (.integer integer)).wide?) = _
  split
  next => rfl
  next large =>
    rw [Option.eq_none_iff_forall_ne_some]
    intro whole found
    rcases wide?_eq_some_iff.mp found with ⟨inRange, double, isNumber, same⟩
    have above := Double.le_quantity_of_ofInt (Int.not_lt.mp large) (Option.some.inj isNumber)
    rw [same] at above
    have tooLarge : 0x8000000000000000 ≤ whole := by exact_mod_cast above
    exact absurd inRange.2 (Int.not_lt.mpr tooLarge)

theorem rounded?_eq_some_iff {value : Json} {exact : ℚ}
    (other : ∀ integer, value ≠ .number (.integer integer)) :
    value.rounded? = some exact ↔
      ∃ double : FiniteDouble, value.asNumber? = some (.finite double) ∧
        double.quantity = exact := by
  cases value with
  | null | bool | array | object =>
      refine iff_of_false nofun ?_
      rintro ⟨double, isNumber, _⟩
      cases isNumber
  | number number =>
      cases number with
      | integer integer => exact absurd rfl (other integer)
      | double double =>
          constructor
          · intro same
            exact ⟨double, rfl, Option.some.inj same⟩
          · rintro ⟨other, isNumber, rfl⟩
            cases isNumber
            rfl
  | string text =>
      simp only [asNumber?_string, rounded?]
      split
      next double read => simp [read]
      next notFinite =>
        refine iff_of_false nofun ?_
        rintro ⟨double, read, _⟩
        exact notFinite double read

theorem rounded?_of_asInt? {value : Json} {whole : Int} (found : value.asInt? = some whole) :
    value.rounded? = some (whole : ℚ) := by
  by_cases isInteger : ∃ integer, value = .number (.integer integer)
  · rcases isInteger with ⟨integer, rfl⟩
    rw [asInt?_integer, Option.ite_none_right_eq_some] at found
    rw [Option.some.inj found.2]
    rfl
  · have other := not_exists.mp isInteger
    rw [asInt?_eq_wide? other, wide?_eq_some_iff] at found
    exact (rounded?_eq_some_iff other).mpr found.2

theorem asInt?_of_rounded? {value : Json} {whole : Int} (inRange : InRange whole)
    (same : value.rounded? = some (whole : ℚ)) : value.asInt? = some whole := by
  by_cases isInteger : ∃ integer, value = .number (.integer integer)
  · rcases isInteger with ⟨integer, rfl⟩
    have sameWhole : integer = whole := by exact_mod_cast Option.some.inj same
    rw [asInt?_integer, sameWhole, if_pos inRange.2]
  · have other := not_exists.mp isInteger
    rw [asInt?_eq_wide? other, wide?_eq_some_iff]
    exact ⟨inRange, (rounded?_eq_some_iff other).mp same⟩

/-- Only a decimal that no double has the quantity of is changed by the rounding. -/
theorem rounded?_eq_quantity? {value : Json} (notCoarse : ¬value.Coarse) :
    value.rounded? = value.quantity? := by
  cases value with
  | null | bool | array | object | number => rfl
  | string text =>
      rw [rounded?, quantity?]
      cases spelled : Decimal.read? text.toList with
      | none =>
          split
          next double read =>
            rcases Double.read?_eq_finite_iff.mp read with ⟨decimal, isDecimal, _⟩
            rw [spelled] at isDecimal
            cases isDecimal
          next => rfl
      | some decimal =>
          have isDouble : IsDouble decimal.quantity := by
            by_contra notDouble
            exact notCoarse (.string spelled notDouble)
          rcases Decimal.toDouble_of_isDouble isDouble with ⟨double, nearest, same⟩
          rw [Double.read?_eq_finite_iff.mpr ⟨decimal, spelled, nearest⟩]
          exact congrArg some same

/-- What is made of a decimal that no double has the quantity of is another number. -/
theorem Coarse.rounded?_ne {value : Json} (coarse : value.Coarse) {exact : ℚ}
    (denoted : value.quantity? = some exact) : value.rounded? ≠ some exact := by
  cases coarse with
  | @string text decimal spelled notDouble =>
      rw [quantity?, spelled] at denoted
      intro same
      have other : ∀ integer, Json.string text ≠ .number (.integer integer) := by
        intro integer same
        cases same
      rcases (rounded?_eq_some_iff other).mp same with ⟨double, _, isExact⟩
      exact notDouble ⟨double, isExact.trans (Option.some.inj denoted).symm⟩

theorem read?_text (number : Int) :
    Decimal.read? (String.ofList (Digits.ofInt number)).toList =
      some ⟨number < 0, number.natAbs, 0⟩ := by
  rw [String.toList_ofList, Decimal.read?_ofInt]

theorem quantity?_text (number : Int) :
    (Json.string (String.ofList (Digits.ofInt number))).quantity? = some (number : ℚ) := by
  rw [quantity?, read?_text, Option.map_some, Decimal.quantity_ofInt]

theorem coarse_text_iff (number : Int) :
    (Json.string (String.ofList (Digits.ofInt number))).Coarse ↔ ¬IsDouble number := by
  have spelled := read?_text number
  constructor
  · intro coarse
    cases coarse with
    | string read notDouble =>
        rw [spelled] at read
        cases read
        rwa [Decimal.quantity_ofInt] at notDouble
  · intro notDouble
    refine .string spelled ?_
    rwa [Decimal.quantity_ofInt]

end Json

theorem QueryResult.int_eq_ok_iff {result : QueryResult} {value : Json}
    (first : result.first = .ok value) {whole : Int} :
    result.int = .ok whole ↔ value.asInt? = some whole := by
  rw [int, firstAs, first, ok_bind]
  cases value.asInt? <;> simp

/-- The integer that is read from a result is the one that its first value denotes, unless the value
is a string with a decimal that no double has the quantity of; the decimal is then rounded, and the
integer is another one or none at all. -/
theorem int_exact_iff {result : QueryResult} {value : Json} (first : result.first = .ok value) :
    (∀ whole : Int, result.int = .ok whole → ¬value.Coarse → value.quantity? = some (whole : ℚ)) ∧
      (∀ whole : Int, InRange whole → value.quantity? = some (whole : ℚ) →
        (result.int = .ok whole ↔ ¬value.Coarse)) ∧
      (∀ whole : Int, InRange whole →
        (result.int = .ok whole ↔ value.rounded? = some (whole : ℚ))) ∧
      ∀ whole : Int, InRange whole → value = .string (String.ofList (Digits.ofInt whole)) →
        (result.int = .ok whole ↔ IsDouble whole) := by
  have given (whole : Int) (inRange : InRange whole)
      (denoted : value.quantity? = some (whole : ℚ)) : result.int = .ok whole ↔ ¬value.Coarse := by
    rw [QueryResult.int_eq_ok_iff first]
    constructor
    · intro found coarse
      exact coarse.rounded?_ne denoted (Json.rounded?_of_asInt? found)
    · intro notCoarse
      apply Json.asInt?_of_rounded? inRange
      rw [Json.rounded?_eq_quantity? notCoarse, denoted]
  refine ⟨?_, given, ?_, ?_⟩
  · intro whole isInt notCoarse
    rw [← Json.rounded?_eq_quantity? notCoarse]
    exact Json.rounded?_of_asInt? ((QueryResult.int_eq_ok_iff first).mp isInt)
  · intro whole inRange
    rw [QueryResult.int_eq_ok_iff first]
    exact ⟨Json.rounded?_of_asInt?, Json.asInt?_of_rounded? inRange⟩
  · rintro whole inRange rfl
    rw [given whole inRange (Json.quantity?_text whole), Json.coarse_text_iff, not_not]

/-- The first integer that no double equals is read as the one before it. -/
theorem int_exact_iff_first_coarse :
    let value := Json.string "9007199254740993"
    let result : QueryResult := ⟨"", .ok [value]⟩
    result.first = .ok value ∧ value.quantity? = some ((9007199254740993 : Int) : ℚ) ∧
      value.Coarse ∧ result.int ≠ .ok 9007199254740993 ∧ result.int = .ok 9007199254740992 := by
  intro value result
  have isText : value = .string (String.ofList (Digits.ofInt 9007199254740993)) := by
    exact congrArg Json.string (by decide)
  have denoted := Json.quantity?_text 9007199254740993
  rw [← isText] at denoted
  have notDouble : ¬IsDouble ((9007199254740993 : Int) : ℚ) := by
    rw [isDouble_intCast_iff]
    decide +kernel
  have coarse : value.Coarse := isText ▸ (Json.coarse_text_iff _).mpr notDouble
  have first : result.first = .ok value := rfl
  have inRange : InRange 9007199254740993 := ⟨by decide, by decide⟩
  refine ⟨first, denoted, coarse, ?_, ?_⟩
  · rw [ne_eq, (int_exact_iff first).2.1 _ inRange denoted, not_not]
    exact coarse
  · rw [QueryResult.int_eq_ok_iff first]
    decide +kernel

end JsonQuery
