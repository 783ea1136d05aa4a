import JsonQuery.Proofs.Number.Rounding
import JsonQuery.Proofs.Path.Numerals
import Mathlib.Data.List.Basic

/-!
The text of a decimal, positional or scientific, spells a number that is read as the same double.
-/

namespace JsonQuery

/-! ## Digits -/

namespace Digits

theorem toNat_append_zeros (digits : List Char) (zeros : Nat) :
    toNat (digits ++ List.replicate zeros '0') = toNat digits * 10 ^ zeros := by
  induction zeros with
  | zero => rw [List.replicate_zero, List.append_nil, Nat.pow_zero, Nat.mul_one]
  | succ zeros induction =>
      rw [List.replicate_succ', ← List.append_assoc, toNat, List.foldl_append, ← toNat, induction,
        Nat.pow_succ, ← Nat.mul_assoc]
      rfl

theorem toNat_zeros_append (zeros : Nat) (digits : List Char) :
    toNat (List.replicate zeros '0' ++ digits) = toNat digits := by
  induction zeros with
  | zero => rfl
  | succ zeros induction => exact induction

theorem head_ofNat {number : Nat} (positive : 0 < number) : (ofNat number).head? ≠ some '0' := by
  induction number using Nat.strongRecOn with
  | ind number induction =>
      rcases Nat.lt_or_ge number 10 with small | large
      · have digit : ∀ number < 10, 0 < number → [Nat.digitChar number].head? ≠ some '0' := by
          decide
        rw [ofNat, Nat.toDigits_of_lt_base small]
        exact digit number small positive
      · have notEmpty : Nat.toDigits 10 (number / 10) ≠ [] := Nat.toDigits_ne_nil
        have fewer : number / 10 < number := Nat.div_lt_self positive (by decide)
        have some : 0 < number / 10 := Nat.div_pos large (by decide)
        rw [ofNat, Nat.toDigits_of_base_le (by decide) large,
          List.head?_append_of_ne_nil _ notEmpty]
        exact induction _ fewer some

theorem wholeText_ofNat (number : Nat) : Json.WholeText (ofNat number) := by
  refine ⟨Lexer.digitText_ofNat number, ?_⟩
  rintro ⟨startsWithZero, several⟩
  rcases Nat.eq_zero_or_pos number with rfl | positive
  · exact several rfl
  · exact head_ofNat positive startsWithZero

/-- The digits of a number without the zeros at the end. -/
def significant (number : Nat) : List Char :=
  ((ofNat number).reverse.dropWhile (· = '0')).reverse

theorem ofNat_eq_significant (number : Nat) :
    ∃ zeros, ofNat number = significant number ++ List.replicate zeros '0' := by
  refine ⟨((ofNat number).reverse.takeWhile (· = '0')).length, ?_⟩
  have allZeros : (ofNat number).reverse.takeWhile (· = '0') =
      List.replicate ((ofNat number).reverse.takeWhile (· = '0')).length '0' := by
    refine List.eq_replicate_iff.mpr ⟨rfl, fun digit there => ?_⟩
    exact of_decide_eq_true (List.all_eq_true.mp List.all_takeWhile digit there)
  rw [significant, ← List.reverse_replicate, ← allZeros, ← List.reverse_append,
    List.takeWhile_append_dropWhile, List.reverse_reverse]

theorem significant_spec {number : Nat} (positive : 0 < number) :
    significant number ≠ [] ∧ (∀ digit ∈ significant number, digit.isDigit = true) ∧
      (significant number).head? ≠ some '0' ∧
      ∃ zeros, (ofNat number).length = (significant number).length + zeros ∧
        number = toNat (significant number) * 10 ^ zeros := by
  rcases ofNat_eq_significant number with ⟨zeros, same⟩
  have value : number = toNat (significant number) * 10 ^ zeros := by
    rw [← toNat_append_zeros, ← same, Lexer.toNat_ofNat]
  have notEmpty : significant number ≠ [] := by
    intro empty
    rw [empty] at value
    exact positive.ne' (value.trans (Nat.zero_mul _))
  refine ⟨notEmpty, fun digit there => ?_, ?_, zeros, ?_, value⟩
  · refine (Lexer.digitText_ofNat number).2 digit ?_
    rw [same]
    exact List.mem_append_left _ there
  · have first := head_ofNat positive
    rwa [same, List.head?_append_of_ne_nil _ notEmpty] at first
  · rw [same, List.length_append, List.length_replicate]

end Digits

/-! ## Notations -/

/-- A text that spells a number behind a sign, as a double and not as an integer. -/
def ReadsAsDouble (text : List Char) (double : Bool → Double) : Prop :=
  ∃ whole fractionText exponentText fraction exponent,
    text = whole ++ (fractionText ++ exponentText) ∧ Json.WholeText whole ∧
      Json.FractionText fractionText fraction ∧ Json.ExponentText exponentText exponent ∧
      (fraction.isSome || exponent.isSome) = true ∧
      ∀ negative, (Decimal.ofParts negative whole (fraction.getD []) (exponent.getD 0)).toDouble =
        double negative

namespace Decimal

variable {digits : List Char}

/-- The double that digits `d.ddd * 10 ^ exponent` stand for. -/
def pointed (digits : List Char) (exponent : Int) (negative : Bool) : Double :=
  toDouble ⟨negative, Digits.toNat digits, exponent + 1 - digits.length⟩

theorem pointed_eq (zeros : Nat) {coefficient : Nat} {exponent power : Int} {negative : Bool}
    (sameDigits : coefficient = Digits.toNat digits * 10 ^ zeros)
    (samePower : power + zeros = exponent + 1 - digits.length) :
    toDouble ⟨negative, coefficient, power⟩ = pointed digits exponent negative := by
  rw [sameDigits, toDouble_mul_pow, samePower, pointed]

theorem isDigit_of_mem_zeros {zeros : Nat} :
    ∀ digit ∈ List.replicate zeros '0', digit.isDigit = true := by
  intro digit there
  rw [List.eq_of_mem_replicate there]
  rfl

/-- The exponent is written with its sign. -/
theorem exponentText (exponent : Int) : Json.ExponentText
    ('e' :: (if exponent < 0 then '-' else '+') :: Digits.ofNat exponent.natAbs)
    (some exponent) := by
  have isDigits := Lexer.digitText_ofNat exponent.natAbs
  have size := Lexer.toNat_ofNat exponent.natAbs
  split
  next below =>
    have value : exponent = -(Digits.toNat (Digits.ofNat exponent.natAbs) : Int) := by omega
    have spelled := Json.ExponentText.some (.inl rfl) .minus isDigits
    rw [if_pos rfl, ← value] at spelled
    exact spelled
  next notBelow =>
    have value : exponent = (Digits.toNat (Digits.ofNat exponent.natAbs) : Int) := by omega
    have spelled := Json.ExponentText.some (.inl rfl) .plus isDigits
    rw [if_neg Bool.false_ne_true, ← value] at spelled
    exact spelled

section Notations

variable (notEmpty : digits ≠ []) (isDigits : ∀ digit ∈ digits, digit.isDigit = true)

include notEmpty isDigits

/-- All digits stand behind the point. -/
theorem positional_spells_small {exponent : Int} (small : exponent < 0) :
    ReadsAsDouble (positional digits exponent) (pointed digits exponent) := by
  have some : List.replicate (exponent.natAbs - 1) '0' ++ digits ≠ [] :=
    List.append_ne_nil_of_right_ne_nil _ notEmpty
  have isFraction : Json.DigitText (List.replicate (exponent.natAbs - 1) '0' ++ digits) :=
    ⟨some, List.forall_mem_append.mpr ⟨isDigit_of_mem_zeros, isDigits⟩⟩
  have isWhole : Json.WholeText ['0'] := Digits.wholeText_ofNat 0
  refine ⟨['0'], _, [], _, none, ?_, isWhole, .some isFraction, .none, rfl, fun negative => ?_⟩
  · rw [positional, if_pos small, List.append_nil]
    rfl
  · refine pointed_eq 0 ?_ ?_
    · have before : ['0'] ++ (List.replicate (exponent.natAbs - 1) '0' ++ digits) =
          List.replicate (exponent.natAbs - 1 + 1) '0' ++ digits := rfl
      rw [Option.getD_some, before, Digits.toNat_zeros_append, Nat.pow_zero, Nat.mul_one]
    · simp only [Option.getD_some, Option.getD_none, List.length_append, List.length_replicate]
      omega

/-- There are digits before the point, and zeros where digits are missing there. -/
theorem positional_spells_large (first : digits.head? ≠ some '0') {exponent : Int}
    (large : ¬exponent < 0) :
    ReadsAsDouble (positional digits exponent) (pointed digits exponent) := by
  have text : positional digits exponent =
      (digits.take (exponent.natAbs + 1) ++
          List.replicate (exponent.natAbs + 1 - digits.length) '0') ++
        ('.' :: (if digits.drop (exponent.natAbs + 1) = [] then ['0']
          else digits.drop (exponent.natAbs + 1))) := by
    rw [positional, if_neg large]
  rcases Nat.lt_or_ge (exponent.natAbs + 1) digits.length with several | few
  · have noZeros : exponent.natAbs + 1 - digits.length = 0 := by omega
    have some : digits.drop (exponent.natAbs + 1) ≠ [] := by
      rwa [Ne, List.drop_eq_nil_iff, Nat.not_le]
    have isFraction : Json.DigitText (digits.drop (exponent.natAbs + 1)) :=
      ⟨some, fun digit there => isDigits digit (List.mem_of_mem_drop there)⟩
    have isWhole : Json.WholeText (digits.take (exponent.natAbs + 1)) := by
      refine ⟨⟨?_, fun digit there => isDigits digit (List.mem_of_mem_take there)⟩, ?_⟩
      · simpa using notEmpty
      · rw [List.head?_take, if_neg (Nat.succ_ne_zero _)]
        exact fun startsWithZero => first startsWithZero.1
    refine ⟨_, _, [], _, none, ?_, isWhole, .some isFraction, .none, rfl, fun negative => ?_⟩
    · rw [text, noZeros, if_neg some, List.append_nil, List.replicate_zero, List.append_nil]
    · refine pointed_eq 0 ?_ ?_
      · rw [Option.getD_some, List.take_append_drop, Nat.pow_zero, Nat.mul_one]
      · simp only [Option.getD_some, Option.getD_none, List.length_drop]
        omega
  · have all : digits.take (exponent.natAbs + 1) = digits := List.take_of_length_le few
    have nothing : digits.drop (exponent.natAbs + 1) = [] := List.drop_eq_nil_iff.mpr few
    have isWhole : Json.WholeText
        (digits ++ List.replicate (exponent.natAbs + 1 - digits.length) '0') := by
      refine ⟨⟨List.append_ne_nil_of_left_ne_nil notEmpty _,
        List.forall_mem_append.mpr ⟨isDigits, isDigit_of_mem_zeros⟩⟩, ?_⟩
      rw [List.head?_append_of_ne_nil _ notEmpty]
      exact fun startsWithZero => first startsWithZero.1
    have isFraction : Json.DigitText ['0'] := Lexer.digitText_ofNat 0
    refine ⟨_, _, [], _, none, ?_, isWhole, .some isFraction, .none, rfl, fun negative => ?_⟩
    · rw [text, all, nothing, if_pos rfl, List.append_nil]
    · refine pointed_eq (exponent.natAbs + 1 - digits.length + 1) ?_ ?_
      · rw [Option.getD_some, List.append_assoc, ← Digits.toNat_append_zeros,
          List.replicate_succ']
      · simp only [Option.getD_some, Option.getD_none, List.length_singleton]
        omega

/-- The first digit stands before the point; there is none if it is the only one. -/
theorem scientific_spells (exponent : Int) :
    ReadsAsDouble (scientific digits exponent) (pointed digits exponent) := by
  cases digits with
  | nil => exact absurd rfl notEmpty
  | cons digit rest =>
      rw [List.forall_mem_cons] at isDigits
      have isWhole : Json.WholeText [digit] := by
        refine ⟨⟨List.cons_ne_nil _ _, List.forall_mem_singleton.mpr isDigits.1⟩, ?_⟩
        exact fun several => several.2 rfl
      have hasFraction : Json.FractionText (if rest = [] then [] else '.' :: rest)
          (if rest = [] then none else some rest) := by
        split
        next => exact .none
        next several => exact .some ⟨several, isDigits.2⟩
      have sameRest : (if rest = [] then none else some rest).getD [] = rest := by
        split
        next single => exact single.symm
        next => rfl
      have hasExponent : Json.ExponentText
          ('e' :: (if exponent < 0 then '-' else '+') :: Digits.ofNat exponent.natAbs)
          (some exponent) := exponentText exponent
      refine ⟨[digit], _, _, _, _, ?_, isWhole, hasFraction, hasExponent, Bool.or_true _,
        fun negative => ?_⟩
      · rw [← List.append_assoc]
        rfl
      · refine pointed_eq 0 ?_ ?_
        · rw [sameRest, Nat.pow_zero, Nat.mul_one]
          rfl
        · rw [sameRest, Option.getD_some, List.length_cons]
          omega

end Notations

/-- The text of a decimal: behind the sign it spells the double to which the decimal is rounded. -/
theorem write_spells (decimal : Decimal) :
    ∃ text, decimal.write = (if decimal.negative then ['-'] else []) ++ text ∧
      ReadsAsDouble text fun negative =>
        toDouble ⟨negative, decimal.coefficient, decimal.exponent⟩ := by
  rcases Nat.eq_zero_or_pos decimal.coefficient with isZero | positive
  · have isWhole : Json.WholeText ['0'] := Digits.wholeText_ofNat 0
    have isFraction : Json.DigitText ['0'] := Lexer.digitText_ofNat 0
    refine ⟨['0', '.', '0'], ?_, ['0'], ['.', '0'], [], some ['0'], none, rfl, isWhole,
      .some isFraction, .none, rfl, fun negative => ?_⟩
    · rw [write]
      exact if_pos isZero
    · have same : toDouble ⟨negative, decimal.coefficient, decimal.exponent⟩ =
          .finite (.zero negative) := toDouble_of_zero isZero
      exact (toDouble_of_zero rfl).trans same.symm
  · rcases Digits.significant_spec positive with
      ⟨notEmpty, isDigits, first, zeros, length, value⟩
    have same (negative : Bool) :
        pointed (Digits.significant decimal.coefficient)
            (decimal.exponent + (Digits.ofNat decimal.coefficient).length - 1) negative =
          toDouble ⟨negative, decimal.coefficient, decimal.exponent⟩ := by
      refine (pointed_eq zeros value ?_).symm
      omega
    refine ⟨_, (if_neg positive.ne'), ?_⟩
    simp only [← same]
    split
    next =>
      rcases Int.lt_or_le (decimal.exponent + (Digits.ofNat decimal.coefficient).length - 1) 0 with
        small | large
      · exact positional_spells_small notEmpty isDigits small
      · exact positional_spells_large notEmpty isDigits first (Int.not_lt.mpr large)
    next => exact scientific_spells notEmpty isDigits _

end Decimal

end JsonQuery
