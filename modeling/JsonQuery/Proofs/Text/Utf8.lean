import JsonQuery.Text.Utf8

/-!
Reading and writing UTF-8 undo each other: a byte list is read as a text exactly if it is the
encoding of that text. A byte below 0x80 in an encoding is always a character of its own.
-/

namespace JsonQuery.Utf8

theorem toNat_lt_unicode (character : Char) : character.toNat < 0x110000 := by
  have valid : character.toNat.isValidChar := character.valid
  rcases valid with low | high
  · omega
  · exact high.2

/-- The standard encoding in terms of the number of the character. -/
theorem utf8EncodeChar_eq (character : Char) (number : Nat) (code : character.toNat = number) :
    String.utf8EncodeChar character =
      if number < 0x80 then [UInt8.ofNat number]
      else if number < 0x800 then
        [UInt8.ofNat (number / 64 + 0xC0), UInt8.ofNat (number % 64 + 0x80)]
      else if number < 0x10000 then
        [UInt8.ofNat (number / 4096 + 0xE0), UInt8.ofNat (number / 64 % 64 + 0x80),
          UInt8.ofNat (number % 64 + 0x80)]
      else
        [UInt8.ofNat (number / 262144 + 0xF0), UInt8.ofNat (number / 4096 % 64 + 0x80),
          UInt8.ofNat (number / 64 % 64 + 0x80), UInt8.ofNat (number % 64 + 0x80)] := by
  have limit := toNat_lt_unicode character
  have unfolded : character.val.toNat = number := code
  simp only [String.utf8EncodeChar, unfolded]
  by_cases one : number < 0x80
  · rw [if_pos (by omega), if_pos one]
  · rw [if_neg (by omega), if_neg one]
    by_cases two : number < 0x800
    · rw [if_pos (by omega), if_pos two, Nat.mod_eq_of_lt (by omega)]
    · rw [if_neg (by omega), if_neg two]
      by_cases three : number < 0x10000
      · rw [if_pos (by omega), if_pos three, Nat.mod_eq_of_lt (by omega : number / 4096 < 16)]
      · rw [if_neg (by omega), if_neg three, Nat.mod_eq_of_lt (by omega : number / 262144 < 8)]

theorem toNat_ofNat_add (low offset : Nat) (small : low + offset < 0x100) :
    (UInt8.ofNat (low + offset)).toNat = low + offset := by
  rw [UInt8.toNat_ofNat', Nat.mod_eq_of_lt small]

theorem continuation?_ofNat {low : Nat} (small : low < 64) :
    continuation? (UInt8.ofNat (low + 0x80)) = some low := by
  have size : (UInt8.ofNat (low + 0x80)).toNat = low + 0x80 := toNat_ofNat_add _ _ (by omega)
  have bounds : 0x80 ≤ UInt8.ofNat (low + 0x80) ∧ UInt8.ofNat (low + 0x80) < 0xC0 := by
    simp only [UInt8.le_iff_toNat_le, UInt8.lt_iff_toNat_lt, size, UInt8.reduceToNat]
    omega
  rw [continuation?, if_pos bounds, size, Nat.add_sub_cancel]

theorem scalar?_toNat (least : Nat) (character : Char) (long : least ≤ character.toNat) :
    scalar? least character.toNat = some character := by
  rw [scalar?, if_pos ⟨long, character.valid⟩, Char.ofNat_toNat]

theorem decodeChar?_utf8EncodeChar (character : Char) (rest : List UInt8) :
    decodeChar? (String.utf8EncodeChar character ++ rest) = some (character, rest) := by
  have limit := toNat_lt_unicode character
  have scalar := fun least => scalar?_toNat least character
  have whole : Char.ofNat character.toNat = character := Char.ofNat_toNat character
  have digit := fun number => continuation?_ofNat (Nat.mod_lt number (by decide : 64 > 0))
  rw [utf8EncodeChar_eq character _ rfl]
  generalize character.toNat = number at *
  by_cases one : number < 0x80
  · have size : (UInt8.ofNat number).toNat = number := toNat_ofNat_add number 0 (by omega)
    simp only [if_pos one, List.cons_append, List.nil_append, decodeChar?,
      UInt8.lt_iff_toNat_lt, size, UInt8.reduceToNat, whole]
  · by_cases two : number < 0x800
    · have size := toNat_ofNat_add (number / 64) 0xC0 (by omega)
      have sum : number / 64 * 64 + number % 64 = number := by omega
      simp only [if_neg one, if_pos two, List.cons_append, List.nil_append, decodeChar?,
        UInt8.lt_iff_toNat_lt, size, UInt8.reduceToNat]
      rw [if_neg (by omega), if_neg (by omega), if_pos (by omega)]
      simp only [digit, Nat.add_sub_cancel, Option.bind_eq_bind, Option.bind_some, sum]
      rw [scalar 0x80 (by omega), Option.bind_some]
    · by_cases three : number < 0x10000
      · have size := toNat_ofNat_add (number / 4096) 0xE0 (by omega)
        have sum : (number / 4096 * 64 + number / 64 % 64) * 64 + number % 64 = number := by
          omega
        simp only [if_neg one, if_neg two, if_pos three, List.cons_append, List.nil_append,
          decodeChar?, UInt8.lt_iff_toNat_lt, size, UInt8.reduceToNat]
        rw [if_neg (by omega), if_neg (by omega), if_neg (by omega), if_pos (by omega)]
        simp only [digit, Nat.add_sub_cancel, Option.bind_eq_bind, Option.bind_some, sum]
        rw [scalar 0x800 (by omega), Option.bind_some]
      · have size := toNat_ofNat_add (number / 262144) 0xF0 (by omega)
        have sum : ((number / 262144 * 64 + number / 4096 % 64) * 64 + number / 64 % 64) * 64 +
            number % 64 = number := by omega
        simp only [if_neg one, if_neg two, if_neg three, List.cons_append, List.nil_append,
          decodeChar?, UInt8.lt_iff_toNat_lt, size, UInt8.reduceToNat]
        rw [if_neg (by omega), if_neg (by omega), if_neg (by omega), if_neg (by omega),
          if_pos (by omega)]
        simp only [digit, Nat.add_sub_cancel, Option.bind_eq_bind, Option.bind_some, sum]
        rw [scalar 0x10000 (by omega), Option.bind_some]

theorem continuation?_eq_some {byte : UInt8} {low : Nat}
    (read : continuation? byte = some low) :
    low < 64 ∧ byte = UInt8.ofNat (low + 0x80) := by
  rw [continuation?] at read
  split at read
  next bounds =>
    simp only [UInt8.le_iff_toNat_le, UInt8.lt_iff_toNat_lt, UInt8.reduceToNat] at bounds
    rw [← Option.some.inj read]
    refine ⟨by omega, ?_⟩
    rw [Nat.sub_add_cancel bounds.1, UInt8.ofNat_toNat]
  next => cases read

theorem scalar?_eq_some {least code : Nat} {character : Char}
    (read : scalar? least code = some character) :
    least ≤ code ∧ character.toNat = code := by
  rw [scalar?] at read
  split at read
  next bounds =>
    rw [← Option.some.inj read]
    refine ⟨bounds.1, ?_⟩
    rw [Char.ofNat, dif_pos bounds.2]
    rfl
  next => cases read

/-- A byte is known by what is left of it after its mark. -/
theorem eq_ofNat_of_sub {byte : UInt8} {high offset : Nat} (least : offset ≤ byte.toNat)
    (payload : byte.toNat - offset = high) : byte = UInt8.ofNat (high + offset) := by
  rw [← payload, Nat.sub_add_cancel least, UInt8.ofNat_toNat]

/-! ### Encodings by their payload bits -/

section Forms

variable {character : Char} {high upper middle low : Nat}

theorem utf8EncodeChar_two (lowSmall : low < 64) (long : 0x80 ≤ high * 64 + low)
    (short : high * 64 + low < 0x800) (code : character.toNat = high * 64 + low) :
    String.utf8EncodeChar character = [UInt8.ofNat (high + 0xC0), UInt8.ofNat (low + 0x80)] := by
  have first : (high * 64 + low) / 64 = high := by omega
  have second : (high * 64 + low) % 64 = low := by omega
  rw [utf8EncodeChar_eq character _ code, if_neg (by omega), if_pos short, first, second]

theorem utf8EncodeChar_three (middleSmall : middle < 64) (lowSmall : low < 64)
    (long : 0x800 ≤ (high * 64 + middle) * 64 + low)
    (short : (high * 64 + middle) * 64 + low < 0x10000)
    (code : character.toNat = (high * 64 + middle) * 64 + low) :
    String.utf8EncodeChar character =
      [UInt8.ofNat (high + 0xE0), UInt8.ofNat (middle + 0x80), UInt8.ofNat (low + 0x80)] := by
  have first : ((high * 64 + middle) * 64 + low) / 4096 = high := by omega
  have second : ((high * 64 + middle) * 64 + low) / 64 % 64 = middle := by omega
  have third : ((high * 64 + middle) * 64 + low) % 64 = low := by omega
  rw [utf8EncodeChar_eq character _ code, if_neg (by omega), if_neg (by omega), if_pos short,
    first, second, third]

theorem utf8EncodeChar_four (upperSmall : upper < 64) (middleSmall : middle < 64)
    (lowSmall : low < 64) (long : 0x10000 ≤ ((high * 64 + upper) * 64 + middle) * 64 + low)
    (code : character.toNat = ((high * 64 + upper) * 64 + middle) * 64 + low) :
    String.utf8EncodeChar character =
      [UInt8.ofNat (high + 0xF0), UInt8.ofNat (upper + 0x80), UInt8.ofNat (middle + 0x80),
        UInt8.ofNat (low + 0x80)] := by
  have first : (((high * 64 + upper) * 64 + middle) * 64 + low) / 262144 = high := by omega
  have second : (((high * 64 + upper) * 64 + middle) * 64 + low) / 4096 % 64 = upper := by omega
  have third : (((high * 64 + upper) * 64 + middle) * 64 + low) / 64 % 64 = middle := by omega
  have fourth : (((high * 64 + upper) * 64 + middle) * 64 + low) % 64 = low := by omega
  rw [utf8EncodeChar_eq character _ code, if_neg (by omega), if_neg (by omega),
    if_neg (by omega), first, second, third, fourth]

end Forms

/-- Only the encoding of a character is read as that character. -/
theorem eq_of_decodeChar? {bytes rest : List UInt8} {character : Char}
    (read : decodeChar? bytes = some (character, rest)) :
    bytes = String.utf8EncodeChar character ++ rest := by
  cases bytes with
  | nil => cases read
  | cons first bytes =>
    simp only [decodeChar?, UInt8.lt_iff_toNat_lt, UInt8.reduceToNat] at read
    split at read
    next small =>
      have code : character.toNat = first.toNat := by
        rw [← (Prod.mk.inj (Option.some.inj read)).1, Char.ofNat,
          dif_pos (.inl (by omega))]
        rfl
      rw [utf8EncodeChar_eq character _ code, if_pos small, UInt8.ofNat_toNat,
        ← (Prod.mk.inj (Option.some.inj read)).2]
      rfl
    next notOne =>
    split at read
    · cases read
    next notTail =>
    split at read
    next two =>
      split at read
      next second bytes =>
        simp only [Option.bind_eq_bind, Option.bind_eq_some_iff, Option.some.injEq,
          Prod.mk.injEq] at read
        rcases read with ⟨low, lowRead, found, scalarRead, rfl, rfl⟩
        rcases continuation?_eq_some lowRead with ⟨lowSmall, rfl⟩
        rcases scalar?_eq_some scalarRead with ⟨long, code⟩
        generalize highEq : first.toNat - 0xC0 = high at *
        rw [eq_ofNat_of_sub (by omega) highEq,
          utf8EncodeChar_two lowSmall long (by omega) code]
        rfl
      next => cases read
    next notTwo =>
    split at read
    next three =>
      split at read
      next second third bytes =>
        simp only [Option.bind_eq_bind, Option.bind_eq_some_iff, Option.some.injEq,
          Prod.mk.injEq] at read
        rcases read with ⟨middle, middleRead, low, lowRead, found, scalarRead, rfl, rfl⟩
        rcases continuation?_eq_some middleRead with ⟨middleSmall, rfl⟩
        rcases continuation?_eq_some lowRead with ⟨lowSmall, rfl⟩
        rcases scalar?_eq_some scalarRead with ⟨long, code⟩
        generalize highEq : first.toNat - 0xE0 = high at *
        rw [eq_ofNat_of_sub (by omega) highEq,
          utf8EncodeChar_three middleSmall lowSmall long (by omega) code]
        rfl
      next => cases read
    next notThree =>
    split at read
    next four =>
      split at read
      next second third fourth bytes =>
        simp only [Option.bind_eq_bind, Option.bind_eq_some_iff, Option.some.injEq,
          Prod.mk.injEq] at read
        rcases read with
          ⟨upper, upperRead, middle, middleRead, low, lowRead, found, scalarRead, rfl, rfl⟩
        rcases continuation?_eq_some upperRead with ⟨upperSmall, rfl⟩
        rcases continuation?_eq_some middleRead with ⟨middleSmall, rfl⟩
        rcases continuation?_eq_some lowRead with ⟨lowSmall, rfl⟩
        rcases scalar?_eq_some scalarRead with ⟨long, code⟩
        generalize highEq : first.toNat - 0xF0 = high at *
        rw [eq_ofNat_of_sub (by omega) highEq,
          utf8EncodeChar_four upperSmall middleSmall lowSmall long code]
        rfl
      next => cases read
    · cases read

/-! ## Texts -/

theorem encode_cons (character : Char) (text : List Char) :
    encode (character :: text) = String.utf8EncodeChar character ++ encode text := rfl

theorem encode_append (left right : List Char) :
    encode (left ++ right) = encode left ++ encode right :=
  List.flatMap_append

@[simp] theorem width_append (left right : List Char) :
    width (left ++ right) = width left + width right := by
  induction left with
  | nil => exact (Nat.zero_add _).symm
  | cons character left induction => rw [List.cons_append, width, width, induction, Nat.add_assoc]

theorem width_pos {text : List Char} (isText : text ≠ []) : 0 < width text := by
  cases text with
  | nil => exact absurd rfl isText
  | cons character text => exact Nat.add_pos_left character.utf8Size_pos _

theorem length_le_length_encode (text : List Char) : text.length ≤ (encode text).length := by
  induction text with
  | nil => exact Nat.le_refl 0
  | cons character text induction =>
      have positive := character.utf8Size_pos
      rw [encode_cons, List.length_append, String.length_utf8EncodeChar, List.length_cons]
      omega

theorem decodeWithin?_encode (text : List Char) :
    ∀ budget, text.length ≤ budget → decodeWithin? budget (encode text) = some text := by
  induction text with
  | nil => intro budget _; cases budget <;> rfl
  | cons character text induction =>
      intro budget enough
      cases budget with
      | zero => cases enough
      | succ budget =>
          have nonempty : encode (character :: text) ≠ [] := by
            simp [encode_cons, String.utf8EncodeChar_ne_nil]
          have rest := induction budget (Nat.le_of_succ_le_succ enough)
          cases split : encode (character :: text) with
          | nil => exact absurd split nonempty
          | cons byte bytes =>
              simp only [decodeWithin?, ← split, encode_cons, decodeChar?_utf8EncodeChar,
                Option.bind_eq_bind, Option.bind_some, rest]

theorem eq_encode_of_decodeWithin? (budget : Nat) :
    ∀ (bytes : List UInt8) (text : List Char),
      decodeWithin? budget bytes = some text → bytes = encode text := by
  induction budget with
  | zero =>
      intro bytes text read
      cases bytes with
      | nil => cases read; rfl
      | cons byte bytes => cases read
  | succ budget induction =>
      intro bytes text read
      cases bytes with
      | nil => cases read; rfl
      | cons byte bytes =>
          simp only [decodeWithin?, Option.bind_eq_bind, Option.bind_eq_some_iff,
            Option.some.injEq] at read
          rcases read with ⟨⟨character, rest⟩, first, characters, others, rfl⟩
          rw [eq_of_decodeChar? first, encode_cons, induction rest characters others]

/-- A byte list is read as a text exactly if it is the encoding of that text. -/
theorem decode?_eq_some_iff {bytes : List UInt8} {text : List Char} :
    decode? bytes = some text ↔ bytes = encode text := by
  constructor
  · exact eq_encode_of_decodeWithin? _ _ _
  · rintro rfl
    exact decodeWithin?_encode text _ (length_le_length_encode text)

@[simp] theorem decode?_encode (text : List Char) : decode? (encode text) = some text :=
  decode?_eq_some_iff.mpr rfl

theorem encode_injective : Function.Injective encode := by
  intro left right equal
  have both : decode? (encode left) = some right := by rw [equal, decode?_encode]
  rw [decode?_encode] at both
  exact Option.some.inj both

/-! ## Single bytes -/

theorem utf8EncodeChar_of_ascii {character : Char} (ascii : character.toNat < 0x80) :
    String.utf8EncodeChar character = [UInt8.ofNat character.toNat] := by
  rw [utf8EncodeChar_eq character _ rfl, if_pos ascii]

/-- No byte of a longer encoding can be taken for an ASCII character. -/
theorem high_of_mem_utf8EncodeChar {character : Char} (long : ¬character.toNat < 0x80)
    {byte : UInt8} (member : byte ∈ String.utf8EncodeChar character) : 0x80 ≤ byte := by
  have limit := toNat_lt_unicode character
  rw [utf8EncodeChar_eq character _ rfl, if_neg long] at member
  generalize character.toNat = number at *
  simp only [UInt8.le_iff_toNat_le, UInt8.reduceToNat]
  split at member
  · simp only [List.mem_cons, List.not_mem_nil, or_false] at member
    rcases member with rfl | rfl <;> rw [toNat_ofNat_add _ _ (by omega)] <;> omega
  split at member
  · simp only [List.mem_cons, List.not_mem_nil, or_false] at member
    rcases member with rfl | rfl | rfl <;> rw [toNat_ofNat_add _ _ (by omega)] <;> omega
  · simp only [List.mem_cons, List.not_mem_nil, or_false] at member
    rcases member with rfl | rfl | rfl | rfl <;> rw [toNat_ofNat_add _ _ (by omega)] <;> omega

end JsonQuery.Utf8
