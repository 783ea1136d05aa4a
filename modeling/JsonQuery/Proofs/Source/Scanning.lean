import JsonQuery.Proofs.Json.Reading
import JsonQuery.Source.Scanner
import Mathlib.Tactic.IntervalCases

/-!
The scanner finds the end of every value that the JSON grammar allows. It does not know the
grammar: all that counts for it is that strings end at their closing quotes and that brackets are
balanced outside strings.
-/

namespace JsonQuery.Scanner

/-! ## Strings and brackets -/

/-- The bytes inside a string, as far as the scanner looks at them. -/
inductive StringBytes : List UInt8 → Prop
  | nil : StringBytes []
  | plain {byte : UInt8} {text : List UInt8} (notQuote : byte ≠ quote)
      (notBackslash : byte ≠ backslash) (others : StringBytes text) : StringBytes (byte :: text)
  | escape {byte : UInt8} {text : List UInt8} (others : StringBytes text) :
      StringBytes (backslash :: byte :: text)

/-- Bytes in which every string is closed and every bracket has a partner. -/
inductive Balanced : List UInt8 → Prop
  | nil : Balanced []
  | plain {byte : UInt8} (notQuote : byte ≠ quote) (notOpening : isOpening byte = false)
      (notClosing : isClosing byte = false) : Balanced [byte]
  | string {body : List UInt8} (inside : StringBytes body) : Balanced (quote :: (body ++ [quote]))
  | container {opening closing : UInt8} {text : List UInt8} (opens : isOpening opening = true)
      (inside : Balanced text) (closes : isClosing closing = true) :
      Balanced (opening :: (text ++ [closing]))
  | append {left right : List UInt8} (first : Balanced left) (second : Balanced right) :
      Balanced (left ++ right)

theorem StringBytes.append {left right : List UInt8} (first : StringBytes left)
    (second : StringBytes right) : StringBytes (left ++ right) := by
  induction first with
  | nil => exact second
  | plain notQuote notBackslash others induction => exact .plain notQuote notBackslash induction
  | escape others induction => exact .escape induction

theorem stringSize?_quote (text : List UInt8) : stringSize? (quote :: text) = some 1 := by
  rw [stringSize?.eq_def]
  rfl

theorem stringSize?_escape (byte : UInt8) (text : List UInt8) :
    stringSize? (backslash :: byte :: text) = (stringSize? text).map (· + 2) := by
  rw [stringSize?.eq_def]
  rfl

theorem stringSize?_plain {byte : UInt8} (notQuote : byte ≠ quote) (notBackslash : byte ≠ backslash)
    (text : List UInt8) : stringSize? (byte :: text) = (stringSize? text).map (· + 1) := by
  rw [stringSize?.eq_def]
  simp [notQuote, notBackslash]

theorem stringSize?_append {body : List UInt8} (inside : StringBytes body) (rest : List UInt8) :
    stringSize? (body ++ quote :: rest) = some (body.length + 1) := by
  induction inside with
  | nil => exact stringSize?_quote rest
  | plain notQuote notBackslash others induction =>
      rw [List.cons_append, stringSize?_plain notQuote notBackslash, induction]
      rfl
  | escape others induction =>
      rw [List.cons_append, List.cons_append, stringSize?_escape, induction]
      rfl

theorem closingSize?_quote (inString : Bool) (depth : Nat) (text : List UInt8) :
    closingSize? inString depth (quote :: text) =
      (closingSize? (!inString) depth text).map (· + 1) := by
  rw [closingSize?.eq_def]
  cases inString <;> rfl

theorem closingSize?_escape (depth : Nat) (byte : UInt8) (text : List UInt8) :
    closingSize? true depth (backslash :: byte :: text) =
      (closingSize? true depth text).map (· + 2) := by
  rw [closingSize?.eq_def]
  rfl

theorem closingSize?_inside {byte : UInt8} (notQuote : byte ≠ quote)
    (notBackslash : byte ≠ backslash) (depth : Nat) (text : List UInt8) :
    closingSize? true depth (byte :: text) = (closingSize? true depth text).map (· + 1) := by
  rw [closingSize?.eq_def]
  simp [notQuote, notBackslash]

theorem closingSize?_opening {byte : UInt8} (opens : isOpening byte = true) (depth : Nat)
    (text : List UInt8) :
    closingSize? false depth (byte :: text) =
      (closingSize? false (depth + 1) text).map (· + 1) := by
  have notQuote : byte ≠ quote := by
    rintro rfl
    cases opens
  rw [closingSize?.eq_def]
  simp [notQuote, opens]

theorem not_opening_of_isClosing {byte : UInt8} (closes : isClosing byte = true) :
    byte ≠ quote ∧ isOpening byte = false := by
  simp only [isClosing, Bool.or_eq_true, beq_iff_eq] at closes
  rcases closes with rfl | rfl <;> decide

theorem closingSize?_closing {byte : UInt8} (closes : isClosing byte = true) (depth : Nat)
    (text : List UInt8) :
    closingSize? false (depth + 2) (byte :: text) =
      (closingSize? false (depth + 1) text).map (· + 1) := by
  rw [closingSize?.eq_def]
  simp [not_opening_of_isClosing closes, closes]

theorem closingSize?_last {byte : UInt8} (closes : isClosing byte = true) (text : List UInt8) :
    closingSize? false 1 (byte :: text) = some 1 := by
  rw [closingSize?.eq_def]
  simp [not_opening_of_isClosing closes, closes]

theorem closingSize?_outside {byte : UInt8} (notQuote : byte ≠ quote)
    (notOpening : isOpening byte = false) (notClosing : isClosing byte = false) (depth : Nat)
    (text : List UInt8) :
    closingSize? false depth (byte :: text) = (closingSize? false depth text).map (· + 1) := by
  rw [closingSize?.eq_def]
  simp [notQuote, notOpening, notClosing]

theorem closingSize?_string {body : List UInt8} (inside : StringBytes body) (depth : Nat)
    (rest : List UInt8) :
    closingSize? true depth (body ++ quote :: rest) =
      (closingSize? false depth rest).map (· + (body.length + 1)) := by
  induction inside with
  | nil => exact closingSize?_quote true depth rest
  | plain notQuote notBackslash others induction =>
      rw [List.cons_append, closingSize?_inside notQuote notBackslash, induction, Option.map_map]
      rfl
  | escape others induction =>
      rw [List.cons_append, List.cons_append, closingSize?_escape, induction, Option.map_map]
      rfl

/-- The search for a closing bracket passes over balanced bytes. -/
theorem closingSize?_balanced {text : List UInt8} (balanced : Balanced text) :
    ∀ (depth : Nat) (rest : List UInt8), closingSize? false (depth + 1) (text ++ rest) =
      (closingSize? false (depth + 1) rest).map (· + text.length) := by
  induction balanced with
  | nil =>
      intro depth rest
      exact Option.map_id_apply.symm
  | plain notQuote notOpening notClosing =>
      intro depth rest
      exact closingSize?_outside notQuote notOpening notClosing (depth + 1) rest
  | @string body inside =>
      intro depth rest
      have read := closingSize?_string inside (depth + 1) rest
      rw [List.cons_append, List.append_assoc, List.singleton_append, closingSize?_quote,
        Bool.not_false, read, Option.map_map]
      simp [Function.comp_def, Nat.add_assoc]
  | @container opening closing text opens inside closes induction =>
      intro depth rest
      rw [List.cons_append, List.append_assoc, closingSize?_opening opens, induction,
        List.cons_append, closingSize?_closing closes]
      simp [Function.comp_def, Nat.add_comm, Nat.add_left_comm]
  | append first second firstInduction secondInduction =>
      intro depth rest
      rw [List.append_assoc, firstInduction, secondInduction, Option.map_map, List.length_append]
      simp [Function.comp_def, Nat.add_comm, Nat.add_left_comm]

/-! ## Encoded texts -/

theorem encode_cons_ascii {character : Char} (ascii : character.toNat < 0x80) (text : List Char) :
    Utf8.encode (character :: text) = UInt8.ofNat character.toNat :: Utf8.encode text := by
  rw [Utf8.encode_cons, Utf8.utf8EncodeChar_of_ascii ascii]
  rfl

/-- Bytes other than those of two ASCII characters stand in the encoding of other characters. -/
theorem forall_mem_encode_ne (marks : List Char) (asciiMarks : ∀ mark ∈ marks, mark.toNat < 0x80)
    {text : List Char} (others : ∀ character ∈ text, character ∉ marks) :
    ∀ byte ∈ Utf8.encode text, ∀ mark ∈ marks, byte ≠ UInt8.ofNat mark.toNat := by
  intro byte member mark markMem
  have code := asciiMarks mark markMem
  have size : (UInt8.ofNat mark.toNat).toNat = mark.toNat := by
    rw [UInt8.toNat_ofNat', Nat.mod_eq_of_lt (by omega)]
  rintro rfl
  rcases List.mem_flatMap.mp member with ⟨character, characterMem, byteMem⟩
  by_cases ascii : character.toNat < 0x80
  · rw [Utf8.utf8EncodeChar_of_ascii ascii, List.mem_singleton] at byteMem
    have same := congrArg UInt8.toNat byteMem
    rw [size, UInt8.toNat_ofNat', Nat.mod_eq_of_lt (by omega)] at same
    exact others character characterMem (Char.toNat_inj.mp same ▸ markMem)
  · have high := Utf8.high_of_mem_utf8EncodeChar ascii byteMem
    rw [UInt8.le_iff_toNat_le, size] at high
    exact absurd high (by simpa using code)

/-! ### Strings -/

theorem StringBytes.of_forall {text : List UInt8}
    (plain : ∀ byte ∈ text, byte ≠ quote ∧ byte ≠ backslash) : StringBytes text := by
  induction text with
  | nil => exact .nil
  | cons byte text induction =>
      have here := plain byte List.mem_cons_self
      exact .plain here.1 here.2 (induction fun other member =>
        plain other (List.mem_cons_of_mem byte member))

theorem StringBytes.of_encode {text : List Char}
    (plain : ∀ character ∈ text, character ≠ '"' ∧ character ≠ '\\') :
    StringBytes (Utf8.encode text) := by
  have distinct := forall_mem_encode_ne ['"', '\\'] (by simp)
    (by simpa using plain)
  apply of_forall
  intro byte member
  exact ⟨distinct byte member '"' (by decide), distinct byte member '\\' (by decide)⟩

theorem plain_of_hexValue? {digit : Char} {value : Nat}
    (hex : Json.hexValue? digit = some value) : digit ≠ '"' ∧ digit ≠ '\\' := by
  constructor <;> rintro rfl <;> cases hex

theorem plain_of_codeUnit? {a b c d : Char} {unit : Nat}
    (digits : Json.codeUnit? a b c d = some unit) :
    ∀ character ∈ [a, b, c, d], character ≠ '"' ∧ character ≠ '\\' := by
  simp only [Json.codeUnit?, Option.bind_eq_bind, Option.bind_eq_some_iff] at digits
  rcases digits with ⟨_, first, _, second, _, third, _, fourth, _⟩
  simp [plain_of_hexValue? first, plain_of_hexValue? second, plain_of_hexValue? third,
    plain_of_hexValue? fourth]

theorem StringBytes.of_escape (letter : Char) (ascii : letter.toNat < 0x80) {text : List Char}
    (others : StringBytes (Utf8.encode text)) :
    StringBytes (Utf8.encode ('\\' :: letter :: text)) := by
  rw [encode_cons_ascii (by decide), encode_cons_ascii ascii]
  exact .escape others

theorem ascii_of_simpleEscape? {letter character : Char}
    (named : Json.simpleEscape? letter = some character) : letter.toNat < 0x80 := by
  have cases : letter = '"' ∨ letter = '\\' ∨ letter = '/' ∨ letter = 'b' ∨ letter = 'f' ∨
      letter = 'n' ∨ letter = 'r' ∨ letter = 't' := by
    by_contra none
    simp only [not_or] at none
    simp [Json.simpleEscape?, none] at named
  rcases cases with rfl | rfl | rfl | rfl | rfl | rfl | rfl | rfl <;> decide

theorem StringBytes.of_escapeText {text : List Char} {character : Char}
    (escaped : Json.EscapeText text character) :
    StringBytes (Utf8.encode ('\\' :: text)) := by
  cases escaped with
  | simple named => exact .of_escape _ (ascii_of_simpleEscape? named) .nil
  | unit digits => exact .of_escape 'u' (by decide) (.of_encode (plain_of_codeUnit? digits))
  | @pair a b c d e f g h high low highDigits isHigh lowDigits isLow =>
      have second := StringBytes.of_escape 'u' (by decide)
        (StringBytes.of_encode (plain_of_codeUnit? lowDigits))
      have both := (StringBytes.of_encode (plain_of_codeUnit? highDigits)).append second
      rw [← Utf8.encode_append] at both
      exact .of_escape 'u' (by decide) both

theorem StringBytes.of_body {body characters : List Char}
    (spelled : Json.StringBody body characters) : StringBytes (Utf8.encode body) := by
  induction spelled with
  | nil => exact .nil
  | cons first others induction =>
      rw [Utf8.encode_append]
      apply StringBytes.append _ induction
      cases first with
      | plain notQuote notBackslash printable =>
          exact .of_encode (by simp [notQuote, notBackslash])
      | escape escaped => exact .of_escapeText escaped

/-- A quoted string is encoded as the bytes of its body between two quotes. -/
theorem exists_body_of_quoted {text : List Char} {content : String}
    (quoted : Json.Quoted text content) :
    ∃ body, Utf8.encode text = quote :: (body ++ [quote]) ∧ StringBytes body := by
  cases quoted with
  | @intro body characters spelled =>
      refine ⟨Utf8.encode body, ?_, .of_body spelled⟩
      rw [encode_cons_ascii (by decide), Utf8.encode_append]
      rfl

/-! ### Numbers -/

theorem DigitText.characters {text : List Char} (isDigits : Json.DigitText text) :
    ∀ character ∈ text, Json.isNumberCharacter character = true := by
  intro character member
  simp [Json.isNumberCharacter, isDigits.2 character member]

theorem NumberParts.characters {text : List Char} {number : Json.NumberText}
    (parts : Json.NumberParts text number) :
    ∀ character ∈ text, Json.isNumberCharacter character = true := by
  have digit := fun text isDigits => @DigitText.characters text isDigits
  cases parts with
  | @intro sign whole fractionText exponentText negative fraction exponent signed isWhole
      hasFraction hasExponent =>
      intro character member
      simp only [List.mem_append] at member
      rcases member with inSign | inWhole | inFraction | inExponent
      · rw [signed] at inSign
        cases negative with
        | true => rw [List.mem_singleton.mp inSign]; decide
        | false => cases inSign
      · exact digit _ isWhole.1 character inWhole
      · cases hasFraction with
        | none => cases inFraction
        | some isDigits =>
            rcases List.mem_cons.mp inFraction with rfl | inDigits
            · decide
            · exact digit _ isDigits character inDigits
      · cases hasExponent with
        | none => cases inExponent
        | some isMark isSign isDigits =>
            simp only [List.mem_cons, List.mem_append] at inExponent
            rcases inExponent with rfl | inSign | inDigits
            · rcases isMark with rfl | rfl <;> decide
            · cases isSign with
              | none => cases inSign
              | plus | minus => rw [List.mem_singleton.mp inSign]; decide
            · exact digit _ isDigits character inDigits

theorem ascii_of_isNumberCharacter {character : Char}
    (isNumber : Json.isNumberCharacter character = true) :
    character.toNat < 0x80 ∧ isNumberByte (UInt8.ofNat character.toNat) = true := by
  simp only [Json.isNumberCharacter, Bool.or_eq_true, decide_eq_true_eq] at isNumber
  rcases isNumber with ((((digit | rfl) | rfl) | rfl) | rfl) | rfl
  · have bounds : 0x30 ≤ character.toNat ∧ character.toNat ≤ 0x39 := by
      simpa [Char.isDigit, UInt32.le_iff_toNat_le] using digit
    have size : (UInt8.ofNat character.toNat).toNat = character.toNat := by
      rw [UInt8.toNat_ofNat', Nat.mod_eq_of_lt (by omega)]
    refine ⟨by omega, ?_⟩
    simp [isNumberByte, isDigit, UInt8.le_iff_toNat_le, size, bounds]
  all_goals decide

theorem encode_numberCharacters {text : List Char}
    (characters : ∀ character ∈ text, Json.isNumberCharacter character = true) :
    ∀ byte ∈ Utf8.encode text, isNumberByte byte = true := by
  intro byte member
  rcases List.mem_flatMap.mp member with ⟨character, characterMem, byteMem⟩
  have number := ascii_of_isNumberCharacter (characters character characterMem)
  rw [Utf8.utf8EncodeChar_of_ascii number.1, List.mem_singleton] at byteMem
  rw [byteMem]
  exact number.2

theorem Balanced.of_forall {text : List UInt8}
    (plain : ∀ byte ∈ text, byte ≠ quote ∧ isOpening byte = false ∧ isClosing byte = false) :
    Balanced text := by
  induction text with
  | nil => exact .nil
  | cons byte text induction =>
      have here := plain byte List.mem_cons_self
      exact .append (.plain here.1 here.2.1 here.2.2) (induction fun other member =>
        plain other (List.mem_cons_of_mem byte member))

theorem plain_of_isNumberByte {byte : UInt8} (isNumber : isNumberByte byte = true) :
    byte ≠ quote ∧ isOpening byte = false ∧ isClosing byte = false := by
  refine ⟨?_, ?_, ?_⟩
  · rintro rfl
    cases isNumber
  · by_contra opens
    simp only [isOpening, Bool.not_eq_false, Bool.or_eq_true, beq_iff_eq] at opens
    rcases opens with rfl | rfl <;> cases isNumber
  · by_contra closes
    simp only [isClosing, Bool.not_eq_false, Bool.or_eq_true, beq_iff_eq] at closes
    rcases closes with rfl | rfl <;> cases isNumber

/-! ### Values -/

theorem isBlank_of_mem_encode {blanks : List Char} (isBlanks : Json.Blanks blanks) :
    ∀ byte ∈ Utf8.encode blanks, isBlank byte = true := by
  intro byte member
  rcases List.mem_flatMap.mp member with ⟨character, characterMem, byteMem⟩
  have blank := isBlanks character characterMem
  simp only [Text.isBlank, Bool.or_eq_true, decide_eq_true_eq] at blank
  rcases blank with ((rfl | rfl) | rfl) | rfl <;>
    · rw [List.mem_singleton.mp byteMem]
      decide

theorem Balanced.of_blanks {blanks : List Char} (isBlanks : Json.Blanks blanks) :
    Balanced (Utf8.encode blanks) := by
  apply of_forall
  intro byte member
  have blank := isBlank_of_mem_encode isBlanks byte member
  simp only [isBlank, Bool.or_eq_true, beq_iff_eq] at blank
  rcases blank with ((rfl | rfl) | rfl) | rfl <;> decide

theorem Balanced.of_quoted {text : List Char} {content : String}
    (quoted : Json.Quoted text content) : Balanced (Utf8.encode text) := by
  rcases exists_body_of_quoted quoted with ⟨body, same, inside⟩
  rw [same]
  exact .string inside

theorem Balanced.of_scalar {text : List Char} {tree : Json} (scalar : Json.Scalar text tree) :
    Balanced (Utf8.encode text) := by
  cases scalar with
  | null | true | false => exact .of_forall (by decide +kernel)
  | string quoted => exact .of_quoted quoted
  | number parts =>
      apply of_forall
      intro byte member
      have numberBytes := encode_numberCharacters (NumberParts.characters parts)
      exact plain_of_isNumberByte (numberBytes byte member)

theorem Balanced.cons {byte : UInt8} {text : List UInt8} (notQuote : byte ≠ quote)
    (notOpening : isOpening byte = false) (notClosing : isClosing byte = false)
    (others : Balanced text) : Balanced (byte :: text) :=
  .append (.plain notQuote notOpening notClosing) others

theorem Balanced.of_inside {α : Type} {spells : List Char → α → Prop}
    (item : ∀ text value, spells text value → Balanced (Utf8.encode text)) {text : List Char}
    {values : List α} (inside : Json.Inside spells text values) : Balanced (Utf8.encode text) := by
  cases inside with
  | empty isBlanks => exact .of_blanks isBlanks
  | items listed =>
      induction listed with
      | last blanksBefore spelled blanksAfter =>
          rw [Utf8.encode_append, Utf8.encode_append]
          exact .append (.of_blanks blanksBefore)
            (.append (item _ _ spelled) (.of_blanks blanksAfter))
      | more blanksBefore spelled blanksAfter others induction =>
          rw [Utf8.encode_append, Utf8.encode_append, Utf8.encode_append,
            encode_cons_ascii (by decide)]
          exact .append (.of_blanks blanksBefore) (.append (item _ _ spelled)
            (.append (.of_blanks blanksAfter)
              (.cons (by decide) (by decide) (by decide) induction)))

theorem Balanced.of_member {spells : List Char → Json → Prop}
    (value : ∀ text tree, spells text tree → Balanced (Utf8.encode text)) (text : List Char)
    (member : String × Json) (spelled : Json.Member spells text member) :
    Balanced (Utf8.encode text) := by
  cases spelled with
  | intro named blanksBefore blanksAfter spelled =>
      rw [Utf8.encode_append, Utf8.encode_append, encode_cons_ascii (by decide),
        Utf8.encode_append]
      exact .append (.of_quoted named) (.append (.of_blanks blanksBefore)
        (.cons (by decide) (by decide) (by decide)
          (.append (.of_blanks blanksAfter) (value _ _ spelled))))

theorem encode_array (inside : List Char) :
    Utf8.encode ('[' :: (inside ++ [']'])) = 0x5B :: (Utf8.encode inside ++ [0x5D]) := by
  rw [encode_cons_ascii (by decide), Utf8.encode_append]
  rfl

theorem encode_object (inside : List Char) :
    Utf8.encode ('{' :: (inside ++ ['}'])) = 0x7B :: (Utf8.encode inside ++ [0x7D]) := by
  rw [encode_cons_ascii (by decide), Utf8.encode_append]
  rfl

/-- The brackets of a container, and balanced bytes between them. -/
theorem exists_inside_of_composite {spells : List Char → Json → Prop}
    (value : ∀ text tree, spells text tree → Balanced (Utf8.encode text)) {text : List Char}
    {tree : Json} (composite : Json.Composite spells text tree) :
    ∃ opening inside closing, Utf8.encode text = opening :: (inside ++ [closing]) ∧
      isOpening opening = true ∧ Balanced inside ∧ isClosing closing = true := by
  cases composite with
  | array inside =>
      exact ⟨0x5B, _, 0x5D, encode_array _, rfl, .of_inside value inside, rfl⟩
  | object inside =>
      exact ⟨0x7B, _, 0x7D, encode_object _, rfl, .of_inside (.of_member value) inside, rfl⟩

theorem Balanced.of_spells : ∀ (levels : Nat) (text : List Char) (tree : Json),
    Json.Spells levels text tree → Balanced (Utf8.encode text)
  | 0, _, _, spelled => .of_scalar spelled
  | levels + 1, text, tree, spelled => by
      rcases spelled with scalar | composite
      · exact .of_scalar scalar
      · rcases exists_inside_of_composite (of_spells levels) composite with
          ⟨opening, inside, closing, same, opens, balanced, closes⟩
        rw [same]
        exact .container opens balanced closes

/-! ## Ends of values -/

/-- Bytes that do not go on with a number that ends before them. -/
def Stops (bytes : List UInt8) : Prop :=
  ∀ byte ∈ bytes.head?, isNumberByte byte = false

theorem wordSize?_append (word rest : List UInt8) :
    wordSize? word (word ++ rest) = some word.length := by
  rw [wordSize?, if_pos (List.isPrefixOf_iff_prefix.mpr (List.prefix_append word rest))]

/-- A value that begins like a number goes on as far as there are bytes of numbers. -/
theorem valueSize?_number {first : Char} (begins : first = '-' ∨ first.isDigit = true) :
    first.toNat < 0x80 ∧ ∀ text, valueSize? (UInt8.ofNat first.toNat :: text) =
      some (1 + (text.takeWhile isNumberByte).length) := by
  rcases begins with rfl | digit
  · exact ⟨by decide, fun text => rfl⟩
  · have bounds : 0x30 ≤ first.toNat ∧ first.toNat ≤ 0x39 := by
      simpa [Char.isDigit, UInt32.le_iff_toNat_le] using digit
    refine ⟨by omega, fun text => ?_⟩
    generalize first.toNat = number at bounds
    rcases bounds with ⟨least, most⟩
    interval_cases number <;> rfl

theorem valueSize?_scalar {text : List Char} {tree : Json} (scalar : Json.Scalar text tree)
    {rest : List UInt8} (stops : Stops rest) :
    valueSize? (Utf8.encode text ++ rest) = some (Utf8.encode text).length := by
  cases scalar with
  | null => exact wordSize?_append nullWord rest
  | true => exact wordSize?_append trueWord rest
  | false => exact wordSize?_append falseWord rest
  | string quoted =>
      rcases exists_body_of_quoted quoted with ⟨body, same, inside⟩
      have read := stringSize?_append inside rest
      rw [same, List.cons_append, List.append_assoc, List.singleton_append]
      simp [valueSize?, read]
  | number parts =>
      have numberBytes := encode_numberCharacters (NumberParts.characters parts)
      rcases parts.head with ⟨first, others, rfl, begins⟩
      rcases valueSize?_number begins with ⟨ascii, scan⟩
      rw [encode_cons_ascii ascii] at numberBytes ⊢
      have tail : (Utf8.encode others ++ rest).takeWhile isNumberByte = Utf8.encode others := by
        rw [List.takeWhile_append_of_pos fun byte member =>
          numberBytes byte (List.mem_cons_of_mem _ member)]
        cases rest with
        | nil => simp
        | cons byte rest => simp [stops byte rfl]
      rw [List.cons_append, scan, tail, List.length_cons, Nat.add_comm]

theorem valueSize?_spells (levels : Nat) {text : List Char} {tree : Json}
    (spelled : Json.Spells levels text tree) {rest : List UInt8} (stops : Stops rest) :
    valueSize? (Utf8.encode text ++ rest) = some (Utf8.encode text).length := by
  cases levels with
  | zero => exact valueSize?_scalar spelled stops
  | succ levels =>
      rcases spelled with scalar | composite
      · exact valueSize?_scalar scalar stops
      · rcases exists_inside_of_composite (Balanced.of_spells levels) composite with
          ⟨opening, inside, closing, same, opens, balanced, closes⟩
        have notQuote : opening ≠ quote := by
          rintro rfl
          cases opens
        have read := closingSize?_balanced balanced 0 (closing :: rest)
        rw [closingSize?_last closes] at read
        rw [same, List.cons_append, List.append_assoc, List.singleton_append]
        simp [valueSize?, notQuote, opens, read, Nat.add_comm]

end JsonQuery.Scanner
