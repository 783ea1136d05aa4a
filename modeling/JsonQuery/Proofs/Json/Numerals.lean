import JsonQuery.Proofs.Json.Grammar
import JsonQuery.Proofs.Outcome

/-!
Reading numbers. The digits of a number have no end of their own, so a number is read whole only
where the text behind it does not go on with another character of numbers.
-/

namespace JsonQuery.Json

/-- A character that could be part of a number. -/
def isNumberCharacter (character : Char) : Bool :=
  character.isDigit || character = '-' || character = '+' || character = '.' ||
    character = 'e' || character = 'E'

/-- A text that does not go on with a number that ends before it. -/
def Stops (text : List Char) : Prop :=
  ∀ character ∈ text.head?, isNumberCharacter character = false

theorem not_numberCharacter {character : Char} (other : isNumberCharacter character = false) :
    character.isDigit = false ∧ character ≠ '.' ∧ character ≠ 'e' ∧ character ≠ 'E' := by
  simp only [isNumberCharacter, Bool.or_eq_false_iff, decide_eq_false_iff_not] at other
  exact ⟨other.1.1.1.1.1, other.1.1.2, other.1.2, other.2⟩

theorem head_append {Property : Char → Prop} {left right : List Char}
    (first : ∀ character ∈ left.head?, Property character)
    (second : ∀ character ∈ right.head?, Property character) :
    ∀ character ∈ (left ++ right).head?, Property character := by
  cases left with
  | nil => exact second
  | cons => exact first

theorem readDigits_sound {text rest digits : List Char}
    (read : readDigits text = .ok (digits, rest)) : text = digits ++ rest ∧ DigitText digits := by
  rw [readDigits] at read
  split at read
  next => cases read
  next nonempty =>
    rcases Prod.mk.inj (Except.ok.inj read) with ⟨rfl, rfl⟩
    refine ⟨List.takeWhile_append_dropWhile.symm, nonempty, ?_⟩
    exact List.all_eq_true.mp List.all_takeWhile

theorem readDigits_complete {digits rest : List Char} (isDigits : DigitText digits)
    (ends : ∀ character ∈ rest.head?, character.isDigit = false) :
    readDigits (digits ++ rest) = .ok (digits, rest) := by
  have none : rest.takeWhile Char.isDigit = [] ∧ rest.dropWhile Char.isDigit = rest := by
    cases rest with
    | nil => exact ⟨rfl, rfl⟩
    | cons character rest => simp [ends character rfl]
  rw [readDigits, List.takeWhile_append_of_pos isDigits.2, List.dropWhile_append_of_pos isDigits.2,
    none.1, none.2, List.append_nil]
  cases digits with
  | nil => exact absurd rfl isDigits.1
  | cons digit digits => rfl

theorem readWhole_sound {text rest whole : List Char}
    (read : readWhole text = .ok (whole, rest)) : text = whole ++ rest ∧ WholeText whole := by
  rcases bind_eq_ok.mp read with ⟨⟨digits, _⟩, run, finish⟩
  rcases readDigits_sound run with ⟨rfl, isDigits⟩
  dsimp only at finish
  split at finish
  next => cases finish
  next notPadded =>
    cases finish
    exact ⟨rfl, isDigits, notPadded⟩

theorem readWhole_complete {whole rest : List Char} (isWhole : WholeText whole)
    (ends : ∀ character ∈ rest.head?, character.isDigit = false) :
    readWhole (whole ++ rest) = .ok (whole, rest) := by
  simp only [readWhole, readDigits_complete isWhole.1 ends, ok_bind, if_neg isWhole.2]

theorem readFraction_sound {text rest : List Char} {fraction : Option (List Char)}
    (read : readFraction text = .ok (fraction, rest)) :
    ∃ spelled, text = spelled ++ rest ∧ FractionText spelled fraction := by
  revert read
  fun_cases readFraction text with
  | case1 text =>
      intro read
      rcases bind_eq_ok.mp read with ⟨⟨digits, _⟩, run, finish⟩
      rcases readDigits_sound run with ⟨rfl, isDigits⟩
      cases finish
      exact ⟨_, rfl, .some isDigits⟩
  | case2 text noPoint =>
      intro read
      cases read
      exact ⟨[], rfl, .none⟩

theorem readFraction_complete {spelled rest : List Char} {fraction : Option (List Char)}
    (hasFraction : FractionText spelled fraction)
    (ends : ∀ character ∈ rest.head?, character.isDigit = false ∧ character ≠ '.') :
    readFraction (spelled ++ rest) = .ok (fraction, rest) := by
  cases hasFraction with
  | none =>
      cases rest with
      | nil => rfl
      | cons character rest =>
          have noPoint := (ends character rfl).2
          simp [readFraction, noPoint]
  | @some digits isDigits =>
      have read := readDigits_complete isDigits fun character member => (ends character member).1
      simp only [List.cons_append, readFraction, read, ok_bind]

theorem splitSign_sound (text : List Char) :
    ∃ sign, text = sign ++ (Decimal.splitSign text).2 ∧
      SignText sign (Decimal.splitSign text).1 := by
  fun_cases Decimal.splitSign text with
  | case1 text => exact ⟨['-'], rfl, .minus⟩
  | case2 text => exact ⟨['+'], rfl, .plus⟩
  | case3 text => exact ⟨[], rfl, .none⟩

theorem splitSign_complete {sign digits : List Char} {negative : Bool} (rest : List Char)
    (signed : SignText sign negative) (isDigits : DigitText digits) :
    Decimal.splitSign (sign ++ (digits ++ rest)) = (negative, digits ++ rest) := by
  cases signed with
  | none =>
      cases digits with
      | nil => exact absurd rfl isDigits.1
      | cons digit digits =>
          have isDigit := isDigits.2 digit List.mem_cons_self
          have notMinus : digit ≠ '-' := by rintro rfl; cases isDigit
          have notPlus : digit ≠ '+' := by rintro rfl; cases isDigit
          simp [Decimal.splitSign, notMinus, notPlus]
  | plus => rfl
  | minus => rfl

theorem readExponent_sound {text rest : List Char} {exponent : Option Int}
    (read : readExponent text = .ok (exponent, rest)) :
    ∃ spelled, text = spelled ++ rest ∧ ExponentText spelled exponent := by
  cases text with
  | nil =>
      cases read
      exact ⟨[], rfl, .none⟩
  | cons mark text =>
      rw [readExponent] at read
      split at read
      next isMark =>
        rcases splitSign_sound text with ⟨sign, split, signed⟩
        generalize Decimal.splitSign text = parts at *
        rcases bind_eq_ok.mp read with ⟨⟨digits, _⟩, run, finish⟩
        rcases readDigits_sound run with ⟨same, isDigits⟩
        cases finish
        refine ⟨_, ?_, .some isMark signed isDigits⟩
        rw [List.cons_append, List.append_assoc, ← same, ← split]
      next =>
        cases read
        exact ⟨[], rfl, .none⟩

theorem readExponent_complete {spelled rest : List Char} {exponent : Option Int}
    (hasExponent : ExponentText spelled exponent)
    (ends : ∀ character ∈ rest.head?,
      character.isDigit = false ∧ character ≠ 'e' ∧ character ≠ 'E') :
    readExponent (spelled ++ rest) = .ok (exponent, rest) := by
  cases hasExponent with
  | none =>
      cases rest with
      | nil => rfl
      | cons character rest =>
          have noMark := (ends character rfl).2
          simp [readExponent, noMark]
  | @some mark sign digits negative isMark signed isDigits =>
      have split := splitSign_complete rest signed isDigits
      have read := readDigits_complete isDigits fun character member => (ends character member).1
      rw [List.cons_append, List.append_assoc, readExponent, if_pos isMark, split]
      simp only [read, ok_bind]

theorem readUnsigned_sound {negative : Bool} {text rest : List Char} {number : NumberText}
    (read : readUnsigned negative text = .ok (number, rest)) :
    ∃ spelled, text = spelled ++ rest ∧
      NumberParts ((if negative then ['-'] else []) ++ spelled) number := by
  rcases bind_eq_ok.mp read with ⟨⟨whole, afterWhole⟩, wholeRead, finish⟩
  rcases bind_eq_ok.mp finish with ⟨⟨fraction, afterFraction⟩, fractionRead, finish⟩
  rcases bind_eq_ok.mp finish with ⟨⟨exponent, _⟩, exponentRead, finish⟩
  cases finish
  rcases readWhole_sound wholeRead with ⟨rfl, isWhole⟩
  rcases readFraction_sound fractionRead with ⟨fractionText, rfl, hasFraction⟩
  rcases readExponent_sound exponentRead with ⟨exponentText, rfl, hasExponent⟩
  refine ⟨whole ++ (fractionText ++ exponentText), ?_, .intro rfl isWhole hasFraction hasExponent⟩
  simp only [List.append_assoc]

theorem readNumberText_sound {text rest : List Char} {number : NumberText}
    (read : readNumberText text = .ok (number, rest)) :
    ∃ spelled, text = spelled ++ rest ∧ NumberParts spelled number := by
  revert read
  fun_cases readNumberText text with
  | case1 text =>
      intro read
      rcases readUnsigned_sound read with ⟨spelled, rfl, parts⟩
      exact ⟨_, rfl, parts⟩
  | case2 text notMinus =>
      intro read
      rcases readUnsigned_sound read with ⟨spelled, rfl, parts⟩
      exact ⟨_, rfl, parts⟩

/-- What follows the digits before the point ends them. -/
theorem FractionText.head {spelled : List Char} {fraction : Option (List Char)}
    (hasFraction : FractionText spelled fraction) :
    ∀ character ∈ spelled.head?, character = '.' := by
  cases hasFraction with
  | none => nofun
  | some isDigits =>
      intro character member
      exact (Option.some.inj member).symm

theorem ExponentText.head {spelled : List Char} {exponent : Option Int}
    (hasExponent : ExponentText spelled exponent) :
    ∀ character ∈ spelled.head?, character = 'e' ∨ character = 'E' := by
  cases hasExponent with
  | none => nofun
  | some isMark signed isDigits =>
      intro character member
      rw [← Option.some.inj member]
      exact isMark

theorem readUnsigned_complete (negative : Bool)
    {whole fractionText exponentText rest : List Char} {fraction : Option (List Char)}
    {exponent : Option Int} (isWhole : WholeText whole)
    (hasFraction : FractionText fractionText fraction)
    (hasExponent : ExponentText exponentText exponent) (stops : Stops rest) :
    readUnsigned negative (whole ++ (fractionText ++ (exponentText ++ rest))) =
      .ok (⟨negative, whole, fraction, exponent⟩, rest) := by
  have afterExponent : ∀ character ∈ rest.head?,
      character.isDigit = false ∧ character ≠ 'e' ∧ character ≠ 'E' := by
    intro character member
    have other := not_numberCharacter (stops character member)
    exact ⟨other.1, other.2.2⟩
  have afterFraction : ∀ character ∈ (exponentText ++ rest).head?,
      character.isDigit = false ∧ character ≠ '.' := by
    apply head_append
    · intro character member
      rcases hasExponent.head character member with rfl | rfl <;> decide
    · intro character member
      have other := not_numberCharacter (stops character member)
      exact ⟨other.1, other.2.1⟩
  have afterWhole : ∀ character ∈ (fractionText ++ (exponentText ++ rest)).head?,
      character.isDigit = false := by
    apply head_append
    · intro character member
      rw [hasFraction.head character member]
      decide
    · intro character member
      exact (afterFraction character member).1
  simp only [readUnsigned, readWhole_complete isWhole afterWhole, ok_bind,
    readFraction_complete hasFraction afterFraction,
    readExponent_complete hasExponent afterExponent]

theorem readNumberText_complete {spelled rest : List Char} {number : NumberText}
    (parts : NumberParts spelled number) (stops : Stops rest) :
    readNumberText (spelled ++ rest) = .ok (number, rest) := by
  cases parts with
  | @intro sign whole fractionText exponentText negative fraction exponent signed isWhole
      hasFraction hasExponent =>
      have read := readUnsigned_complete negative isWhole hasFraction hasExponent stops
      subst signed
      simp only [List.append_assoc]
      cases negative with
      | true => exact read
      | false =>
          cases whole with
          | nil => exact absurd rfl isWhole.1.1
          | cons digit whole =>
              have isDigit := isWhole.1.2 digit List.mem_cons_self
              have notMinus : digit ≠ '-' := by rintro rfl; cases isDigit
              simpa [readNumberText, notMinus] using read

theorem readNumber_sound {text rest : List Char} {value : Number}
    (read : readNumber text = .ok (value, rest)) :
    ∃ spelled, text = spelled ++ rest ∧ Scalar spelled (.number value) := by
  rcases bind_eq_ok.mp read with ⟨⟨number, _⟩, partsRead, finish⟩
  rcases readNumberText_sound partsRead with ⟨spelled, rfl, parts⟩
  dsimp only at finish
  split at finish
  next inRange =>
    cases finish
    exact ⟨spelled, rfl, .number parts inRange⟩
  next => cases finish

end JsonQuery.Json
