import JsonQuery.Proofs.Json.Numerals
import JsonQuery.Proofs.Path.Lexing

/-!
Numbers in a path: the texts that spell them, which are cut off whole where the text behind them
does not go on, and the doubles and integers that are read from them.
-/

namespace JsonQuery.Lexer

/-- Taking what has a property stops where it is missing. -/
theorem takeWhile_append_stop {α : Type} {property : α → Bool} {items rest : List α}
    (all : ∀ item ∈ items, property item = true)
    (ends : ∀ item ∈ rest.head?, property item = false) :
    (items ++ rest).takeWhile property = items ∧ (items ++ rest).dropWhile property = rest := by
  rw [List.takeWhile_append_of_pos all, List.dropWhile_append_of_pos all]
  cases rest with
  | nil => exact ⟨List.append_nil items, rfl⟩
  | cons item rest => simp [ends item rfl]

/-! ## Texts that spell numbers -/

/-- The texts `-?digits[.digits][e[+-]digits]` and the numbers that they spell, with this mark
before the exponent. -/
inductive Numeral (mark : Char) : List Char → Decimal → Prop
  | intro {sign whole fractionText exponentText : List Char} {negative : Bool}
      {fraction : Option (List Char)} {exponent : Option Int}
      (signed : sign = if negative then ['-'] else []) (isWhole : Json.DigitText whole)
      (hasFraction : Json.FractionText fractionText fraction)
      (hasExponent : Json.ExponentText exponentText exponent)
      (marked : ∀ character ∈ exponentText.head?, character = mark) :
      Numeral mark (sign ++ (whole ++ (fractionText ++ exponentText)))
        (Decimal.ofParts negative whole (fraction.getD []) (exponent.getD 0))

/-- A number is spelled with either mark. -/
theorem Numeral.exists_mark {mark : Char} {text : List Char} {decimal : Decimal}
    (numeral : Numeral mark text decimal) : ∃ other, Numeral 'e' other decimal := by
  cases numeral with
  | @intro sign whole fractionText exponentText negative fraction exponent signed isWhole
      hasFraction hasExponent _ =>
      cases hasExponent with
      | none => exact ⟨_, .intro signed isWhole hasFraction .none nofun⟩
      | some _ exponentSigned isDigits =>
          refine ⟨_, .intro signed isWhole hasFraction
            (.some (.inl rfl) exponentSigned isDigits) ?_⟩
          intro character head
          exact (Option.some.inj head).symm

theorem Numeral.head {mark : Char} {text : List Char} {decimal : Decimal}
    (numeral : Numeral mark text decimal) :
    ∃ first others, text = first :: others ∧ (first = '-' ∨ first.isDigit = true) := by
  cases numeral with
  | @intro sign whole fractionText exponentText negative fraction exponent signed isWhole _ _ _ =>
      cases negative with
      | true =>
          rw [signed]
          exact ⟨'-', _, rfl, .inl rfl⟩
      | false =>
          rw [signed]
          cases whole with
          | nil => exact absurd rfl isWhole.1
          | cons digit whole =>
              exact ⟨digit, _, rfl, .inr (isWhole.2 digit List.mem_cons_self)⟩

/-! ## Cutting numbers off -/

theorem digitText_takeWhile {text : List Char} (isSome : text.takeWhile Char.isDigit ≠ []) :
    Json.DigitText (text.takeWhile Char.isDigit) :=
  ⟨isSome, List.all_eq_true.mp List.all_takeWhile⟩

theorem fraction_sound (text : List Char) :
    ∃ digits, Json.FractionText (fraction text).1 digits := by
  unfold fraction
  split
  · split
    next => exact ⟨none, .none⟩
    next isSome => exact ⟨_, .some (digitText_takeWhile isSome)⟩
  · exact ⟨none, .none⟩

theorem sign_sound (text : List Char) : ∃ negative, Json.SignText (sign text).1 negative := by
  unfold sign
  split
  · exact ⟨false, .plus⟩
  · exact ⟨true, .minus⟩
  · exact ⟨false, .none⟩

theorem exponent_sound (text : List Char) :
    ∃ power, Json.ExponentText (exponent text).1 power := by
  cases text with
  | nil => exact ⟨none, .none⟩
  | cons mark text =>
      rcases sign_sound text with ⟨negative, signed⟩
      rw [exponent]
      split
      next isMark =>
        dsimp only
        split
        next => exact ⟨none, .none⟩
        next isSome => exact ⟨_, .some isMark signed (digitText_takeWhile isSome)⟩
      next => exact ⟨none, .none⟩

theorem minus_sound (text : List Char) :
    ∃ negative : Bool, (minus text).1 = if negative then ['-'] else [] := by
  unfold minus
  split
  · exact ⟨true, rfl⟩
  · exact ⟨false, rfl⟩

theorem exists_eq_of_head? (text : List Char) :
    ∃ first, ∀ character ∈ text.head?, character = first := by
  cases text with
  | nil => exact ⟨' ', nofun⟩
  | cons first _ => exact ⟨first, fun _ head => (Option.some.inj head).symm⟩

/-- What is cut off as a number spells one. -/
theorem number?_sound {text : List Char} {cut : Cut} (found : number? text = some cut) :
    cut.lexeme = .number (String.ofList cut.source) ∧
      ∃ mark decimal, Numeral mark cut.source decimal := by
  rw [number?_eq] at found
  dsimp only at found
  split at found
  next => cases found
  next isSome =>
    cases found
    rcases minus_sound text with ⟨negative, signed⟩
    rcases fraction_sound ((minus text).2.dropWhile Char.isDigit) with ⟨digits, hasFraction⟩
    rcases exponent_sound (fraction ((minus text).2.dropWhile Char.isDigit)).2 with
      ⟨power, hasExponent⟩
    rcases exists_eq_of_head? (exponent (fraction ((minus text).2.dropWhile Char.isDigit)).2).1
      with ⟨mark, marked⟩
    have numeral := Numeral.intro signed (digitText_takeWhile isSome) hasFraction hasExponent marked
    refine ⟨rfl, mark, ?_⟩
    simp only [List.append_assoc]
    exact ⟨_, numeral⟩

theorem minus_complete {sign whole : List Char} {negative : Bool} (rest : List Char)
    (signed : sign = if negative then ['-'] else []) (isWhole : Json.DigitText whole) :
    minus (sign ++ (whole ++ rest)) = (sign, whole ++ rest) := by
  cases negative with
  | true =>
      rw [signed]
      rfl
  | false =>
      rw [signed]
      cases whole with
      | nil => exact absurd rfl isWhole.1
      | cons digit whole =>
          have notMinus : digit ≠ '-' := by
            rintro rfl
            exact absurd (isWhole.2 '-' List.mem_cons_self) (by decide)
          simp [minus, notMinus]

theorem sign_complete {sign digits : List Char} {negative : Bool} (rest : List Char)
    (signed : Json.SignText sign negative) (isDigits : Json.DigitText digits) :
    Lexer.sign (sign ++ (digits ++ rest)) = (sign, digits ++ rest) := by
  cases signed with
  | plus => rfl
  | minus => rfl
  | none =>
      cases digits with
      | nil => exact absurd rfl isDigits.1
      | cons digit digits =>
          have isDigit := isDigits.2 digit List.mem_cons_self
          have notMinus : digit ≠ '-' := by rintro rfl; exact absurd isDigit (by decide)
          have notPlus : digit ≠ '+' := by rintro rfl; exact absurd isDigit (by decide)
          simp [Lexer.sign, notMinus, notPlus]

theorem fraction_complete {spelled rest : List Char} {digits : Option (List Char)}
    (hasFraction : Json.FractionText spelled digits)
    (ends : ∀ character ∈ rest.head?, character.isDigit = false ∧ character ≠ '.') :
    fraction (spelled ++ rest) = (spelled, rest) := by
  cases hasFraction with
  | none =>
      cases rest with
      | nil => rfl
      | cons character rest => simp [fraction, (ends character rfl).2]
  | @some digits isDigits =>
      have taken := takeWhile_append_stop isDigits.2 fun character head => (ends character head).1
      rw [List.cons_append, fraction, taken.1, taken.2]
      cases digits with
      | nil => exact absurd rfl isDigits.1
      | cons digit digits => rfl

theorem exponent_complete {spelled rest : List Char} {power : Option Int}
    (hasExponent : Json.ExponentText spelled power)
    (ends : ∀ character ∈ rest.head?,
      character.isDigit = false ∧ character ≠ 'e' ∧ character ≠ 'E') :
    exponent (spelled ++ rest) = (spelled, rest) := by
  cases hasExponent with
  | none =>
      cases rest with
      | nil => rfl
      | cons character rest => simp [exponent, (ends character rfl).2]
  | @some mark sign digits negative isMark signed isDigits =>
      have taken := takeWhile_append_stop isDigits.2 fun character head => (ends character head).1
      rw [List.cons_append, List.append_assoc, exponent, if_pos isMark,
        sign_complete rest signed isDigits]
      dsimp only
      rw [taken.1, taken.2]
      cases digits with
      | nil => exact absurd rfl isDigits.1
      | cons digit digits => rfl

/-- A text that does not go on with a name or a number that ends before it. -/
def Delimits (text : List Char) : Prop :=
  ∀ character ∈ text.head?, isIdentifierPart character = false ∧ character ≠ '.'

/-- A text that does not go on with a number that ends before it. -/
def EndsNumber (text : List Char) : Prop :=
  ∀ character ∈ text.head?, character.isDigit = false ∧ character ≠ '.' ∧
    character ≠ 'e' ∧ character ≠ 'E'

theorem val_le_of_isDigit {character : Char} (isDigit : character.isDigit = true) :
    character.val.toNat ≤ 57 := by
  simp only [Char.isDigit, Bool.and_eq_true, decide_eq_true_eq] at isDigit
  exact UInt32.le_iff_toNat_le.mp isDigit.2

theorem isAlphanumeric_of_isDigit {character : Char} (isDigit : character.isDigit = true) :
    Text.isAlphanumeric character = true := by
  have small : character.toNat < 0x80 :=
    Nat.lt_of_le_of_lt (val_le_of_isDigit isDigit) (by decide)
  simp [Text.isAlphanumeric, Text.isNumeric, small, isDigit]

theorem isIdentifierPart_of_isDigit {character : Char} (isDigit : character.isDigit = true) :
    isIdentifierPart character = true := by
  simp [isIdentifierPart, isAlphanumeric_of_isDigit isDigit]

theorem Delimits.word {text : List Char} (delimits : Delimits text) :
    ∀ character ∈ text.head?, isIdentifierPart character = false :=
  fun character head => (delimits character head).1

theorem Delimits.number {text : List Char} (delimits : Delimits text) : EndsNumber text := by
  intro character head
  rcases delimits character head with ⟨notPart, notPoint⟩
  refine ⟨?_, notPoint, ?_, ?_⟩
  · rw [Bool.eq_false_iff]
    intro isDigit
    rw [isIdentifierPart_of_isDigit isDigit] at notPart
    cases notPart
  · rintro rfl
    exact absurd notPart (by decide)
  · rintro rfl
    exact absurd notPart (by decide)

/-- A numeral is cut off whole where the text behind it does not go on with it. -/
theorem number?_complete {mark : Char} {spelled rest : List Char} {decimal : Decimal}
    (numeral : Numeral mark spelled decimal) (ends : EndsNumber rest) :
    number? (spelled ++ rest) = some ⟨.number (String.ofList spelled), spelled, rest⟩ := by
  cases numeral with
  | @intro sign whole fractionText exponentText negative fraction exponent signed isWhole
      hasFraction hasExponent marked =>
      have afterExponent : ∀ character ∈ rest.head?,
          character.isDigit = false ∧ character ≠ 'e' ∧ character ≠ 'E' := by
        intro character head
        have other := ends character head
        exact ⟨other.1, other.2.2⟩
      have afterFraction : ∀ character ∈ (exponentText ++ rest).head?,
          character.isDigit = false ∧ character ≠ '.' := by
        apply Json.head_append
        · intro character head
          rcases hasExponent.head character head with rfl | rfl <;> decide
        · intro character head
          have other := ends character head
          exact ⟨other.1, other.2.1⟩
      have afterWhole : ∀ character ∈ (fractionText ++ (exponentText ++ rest)).head?,
          character.isDigit = false := by
        apply Json.head_append
        · intro character head
          rw [hasFraction.head character head]
          decide
        · intro character head
          exact (afterFraction character head).1
      have taken := takeWhile_append_stop isWhole.2 afterWhole
      rw [number?_eq]
      simp only [List.append_assoc, minus_complete _ signed isWhole, taken,
        fraction_complete hasFraction afterFraction, exponent_complete hasExponent afterExponent]
      cases whole with
      | nil => exact absurd rfl isWhole.1
      | cons digit whole => rfl

/-! ## Reading numbers -/

theorem readNat?_digits {digits : List Char} (isDigits : Json.DigitText digits) :
    Digits.readNat? digits = some (Digits.toNat digits) :=
  if_pos ⟨isDigits.1, List.all_eq_true.mpr isDigits.2⟩

theorem readExponent?_complete {text : List Char} {power : Option Int}
    (hasExponent : Json.ExponentText text power) :
    Decimal.readExponent? text = some (power.getD 0) := by
  cases hasExponent with
  | none => rfl
  | @some mark sign digits negative isMark signed isDigits =>
      have split := Json.splitSign_complete [] signed isDigits
      rw [List.append_nil] at split
      rw [Decimal.readExponent?, if_pos isMark, split]
      dsimp only
      rw [readNat?_digits isDigits]
      cases negative <;> rfl

theorem signText_minus {sign : List Char} {negative : Bool}
    (signed : sign = if negative then ['-'] else []) : Json.SignText sign negative := by
  cases negative with
  | true => exact signed ▸ .minus
  | false => exact signed ▸ .none

/-- A numeral is read as the number that it spells. -/
theorem Numeral.read? {mark : Char} {text : List Char} {decimal : Decimal}
    (numeral : Numeral mark text decimal) : Decimal.read? text = some decimal := by
  cases numeral with
  | @intro sign whole fractionText exponentText negative fraction exponent signed isWhole
      hasFraction hasExponent _ =>
      have split := Json.splitSign_complete (fractionText ++ exponentText) (signText_minus signed)
        isWhole
      have afterFraction : ∀ character ∈ exponentText.head?,
          character.isDigit = false ∧ character ≠ '.' := by
        intro character head
        rcases hasExponent.head character head with rfl | rfl <;> decide
      have afterWhole : ∀ character ∈ (fractionText ++ exponentText).head?,
          character.isDigit = false := by
        apply Json.head_append
        · intro character head
          rw [hasFraction.head character head]
          decide
        · intro character head
          exact (afterFraction character head).1
      have taken := takeWhile_append_stop isWhole.2 afterWhole
      have power := readExponent?_complete hasExponent
      simp only [Decimal.read?, split, taken]
      cases hasFraction with
      | none =>
          cases exponentText with
          | nil => simp [power, isWhole.1]
          | cons mark rest =>
              have noPoint := (afterFraction mark rfl).2
              simp [noPoint, power, isWhole.1]
      | @some digits isDigits =>
          have takenFraction := takeWhile_append_stop isDigits.2 fun character head =>
            (afterFraction character head).1
          simp only [List.cons_append, takenFraction, power]
          simp [isWhole.1]

theorem toLower_of_isDigit {character : Char} (isDigit : character.isDigit = true) :
    character.toLower = character := by
  have upper := val_le_of_isDigit isDigit
  have notUpper : ¬(character.val ≥ 'A'.val ∧ character.val ≤ 'Z'.val) := by
    rintro ⟨lower, _⟩
    have above : 65 ≤ character.val.toNat := UInt32.le_iff_toNat_le.mp lower
    omega
  exact dif_neg notUpper

/-- A numeral is none of the names of the special values. -/
theorem Numeral.name_ne {mark : Char} {text : List Char} {decimal : Decimal}
    (numeral : Numeral mark text decimal) {name : List Char}
    (letter : name.head?.map Char.isDigit = some false) :
    (Decimal.splitSign text).2.map Char.toLower ≠ name := by
  cases numeral with
  | @intro sign whole fractionText exponentText negative fraction exponent signed isWhole _ _ _ =>
      rw [Json.splitSign_complete _ (signText_minus signed) isWhole]
      rintro rfl
      cases whole with
      | nil => exact isWhole.1 rfl
      | cons digit whole =>
          have isDigit := isWhole.2 digit List.mem_cons_self
          rw [List.cons_append, List.map_cons, toLower_of_isDigit isDigit, List.head?_cons,
            Option.map_some, isDigit] at letter
          cases letter

/-- A numeral is read as the double nearest to the number that it spells. -/
theorem Numeral.readDouble? {mark : Char} {text : List Char} {decimal : Decimal}
    (numeral : Numeral mark text decimal) : Double.read? text = some decimal.toDouble := by
  have notInfinite : ¬((Decimal.splitSign text).2.map Char.toLower = "inf".toList ∨
      (Decimal.splitSign text).2.map Char.toLower = "infinity".toList) :=
    not_or.mpr ⟨numeral.name_ne rfl, numeral.name_ne rfl⟩
  rw [Double.read?, numeral.read?]
  dsimp only
  rw [if_neg (numeral.name_ne rfl), if_neg notInfinite]
  rfl

/-! ## Integers -/

theorem digitText_ofNat (number : Nat) : Json.DigitText (Digits.ofNat number) :=
  ⟨Nat.toDigits_ne_nil, fun _ digit => Nat.isDigit_of_mem_toDigits (by decide) (by decide) digit⟩

theorem toNat_ofNat (number : Nat) : Digits.toNat (Digits.ofNat number) = number := by
  have step : (fun total digit => total * 10 + Digits.value digit) =
      fun total digit => 10 * total + (digit.toNat - '0'.toNat) := by
    funext total digit
    rw [Nat.mul_comm]
    rfl
  rw [Digits.toNat, step]
  exact Nat.ofDigitChars_toDigits (by decide) (by decide)

/-- The decimal text of an integer is a numeral. -/
theorem numeral_ofInt (number : Int) : ∃ decimal, Numeral 'e' (Digits.ofInt number) decimal := by
  have digits := digitText_ofNat number.natAbs
  have numeral (negative : Bool) :
      Numeral 'e' ((if negative then ['-'] else []) ++ Digits.ofNat number.natAbs)
        (Decimal.ofParts negative (Digits.ofNat number.natAbs) [] 0) := by
    have spelled : Numeral 'e'
        ((if negative then ['-'] else []) ++ (Digits.ofNat number.natAbs ++ ([] ++ []))) _ :=
      .intro rfl digits .none .none nofun
    rw [List.append_nil, List.append_nil] at spelled
    exact spelled
  rw [Digits.ofInt]
  split
  · exact ⟨_, numeral true⟩
  · exact ⟨_, numeral false⟩

theorem readInteger?_minus {digits : List Char} (isDigits : Json.DigitText digits)
    (lower : -0x8000000000000000 ≤ -(Digits.toNat digits : Int)) :
    Digits.readInteger? ('-' :: digits) = some (-(Digits.toNat digits : Int)) := by
  have upper : -(Digits.toNat digits : Int) < 0x8000000000000000 := by omega
  simp only [Digits.readInteger?, readNat?_digits isDigits]
  exact if_pos ⟨lower, upper⟩

theorem readInteger?_unsigned {text : List Char}
    (unsigned : ∀ rest, text ≠ '-' :: rest ∧ text ≠ '+' :: rest) :
    Digits.readInteger? text = ((Digits.readNat? text).map Int.ofNat).bind fun number =>
      if -0x8000000000000000 ≤ number ∧ number < 0x8000000000000000 then some number else none := by
  unfold Digits.readInteger?
  split
  next rest => exact absurd rfl (unsigned rest).1
  next rest => exact absurd rfl (unsigned rest).2
  next => rfl

theorem readInteger?_digits {digits : List Char} (isDigits : Json.DigitText digits)
    (upper : (Digits.toNat digits : Int) < 0x8000000000000000) :
    Digits.readInteger? digits = some (Digits.toNat digits : Int) := by
  have lower : -0x8000000000000000 ≤ (Digits.toNat digits : Int) := by omega
  have unsigned : ∀ rest, digits ≠ '-' :: rest ∧ digits ≠ '+' :: rest := by
    intro rest
    constructor <;>
    · rintro rfl
      exact absurd (isDigits.2 _ List.mem_cons_self) (by decide)
  have bounds : -0x8000000000000000 ≤ Int.ofNat (Digits.toNat digits) ∧
      Int.ofNat (Digits.toNat digits) < 0x8000000000000000 := ⟨lower, upper⟩
  rw [readInteger?_unsigned unsigned, readNat?_digits isDigits, Option.map_some, Option.bind_some,
    if_pos bounds]
  rfl

/-- A 64-bit integer is read back from its decimal text. -/
theorem readInteger?_ofInt {number : Int} (lower : -0x8000000000000000 ≤ number)
    (upper : number < 0x8000000000000000) :
    Digits.readInteger? (Digits.ofInt number) = some number := by
  have digits := digitText_ofNat number.natAbs
  have value := toNat_ofNat number.natAbs
  rw [Digits.ofInt]
  split
  next negative =>
    have same : -(Digits.toNat (Digits.ofNat number.natAbs) : Int) = number := by
      rw [value]
      omega
    rw [readInteger?_minus digits (by rwa [same]), same]
  next notNegative =>
    have same : (Digits.toNat (Digits.ofNat number.natAbs) : Int) = number := by
      rw [value]
      omega
    rw [readInteger?_digits digits (by rwa [same]), same]

end JsonQuery.Lexer
