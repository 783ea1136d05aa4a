import JsonQuery.Proofs.Path.Numerals
import Mathlib

/-!
The lexemes that have a spelling of their own: quoted strings, numbers and identifiers. Each is
cut off whole where the text behind it does not go on with it.
-/

namespace JsonQuery.Lexer

/-! ## Symbols -/

def beginsOther (character : Char) : Bool :=
  isIdentifierStart character || character.isDigit || character = '-' || character = '"'

theorem symbol?_none {symbols : List Lexeme} {kind : Char → Bool}
    (apart : ∀ lexeme ∈ symbols, lexeme.text.toList.head?.map kind = some false) {first : Char}
    (isKind : kind first = true) (text : List Char) : symbol? symbols (first :: text) = none := by
  rw [symbol?, Option.map_eq_none_iff, List.find?_eq_none]
  intro lexeme symbol begins
  have head := apart lexeme symbol
  cases spelled : lexeme.text.toList with
  | nil =>
      rw [spelled] at head
      cases head
  | cons character characters =>
      rw [spelled] at head begins
      rw [List.isPrefixOf_cons_cons, Bool.and_eq_true, beq_iff_eq] at begins
      rw [begins.1, List.head?_cons, Option.map_some, isKind] at head
      cases head

theorem symbol?_other {first : Char} (other : beginsOther first = true) (text : List Char) :
    symbol? filterSymbols (first :: text) = none :=
  symbol?_none (by decide) other text

theorem cutAt?_slash {rest : List Char} (single : rest.head? ≠ some '/') :
    cutAt? 0 ('/' :: rest) = some ⟨.slash, ['/'], rest⟩ := by
  cases rest with
  | nil => rfl
  | cons next rest =>
      have different : next ≠ '/' := fun same => single (congrArg some same)
      simp [cutAt?, pathCut?, symbol?, pathSymbols, Lexeme.text, different.symm]

theorem cutAt?_dot {rest : List Char} (single : rest.head? ≠ some '.') :
    cutAt? 0 ('.' :: rest) = some ⟨.dot, ['.'], rest⟩ := by
  cases rest with
  | nil => rfl
  | cons next rest =>
      have different : next ≠ '.' := fun same => single (congrArg some same)
      simp [cutAt?, pathCut?, symbol?, pathSymbols, Lexeme.text, different.symm]

/-! ## Quoted strings -/

theorem quotedBody?_escaped (quote escaped : Char) (text : List Char) :
    quotedBody? quote ('\\' :: escaped :: text) =
      (quotedBody? quote text).map fun (content, source, rest) =>
        (unescape escaped :: content, '\\' :: escaped :: source, rest) := by
  rw [quotedBody?.eq_def]
  dsimp only
  rw [if_pos rfl]
  cases quotedBody? quote text <;> rfl

theorem quotedBody?_closing {quote : Char} (notEscape : quote ≠ '\\') (text : List Char) :
    quotedBody? quote (quote :: text) = some ([], [quote], text) := by
  rw [quotedBody?.eq_def]
  dsimp only
  rw [if_neg notEscape, if_pos rfl]

theorem quotedBody?_plain {quote character : Char} (notEscape : character ≠ '\\')
    (notQuote : character ≠ quote) (text : List Char) :
    quotedBody? quote (character :: text) =
      (quotedBody? quote text).map fun (content, source, rest) =>
        (character :: content, character :: source, rest) := by
  rw [quotedBody?.eq_def]
  dsimp only
  rw [if_neg notEscape, if_neg notQuote]
  cases quotedBody? quote text <;> rfl

/-- What stands between two quotes, and the content that it spells. A backslash escapes any
character. -/
inductive SpellsContent (quote : Char) : List Char → List Char → Prop
  | nil : SpellsContent quote [] []
  | plain {character : Char} {text content : List Char} (notQuote : character ≠ quote)
      (notEscape : character ≠ '\\') (others : SpellsContent quote text content) :
      SpellsContent quote (character :: text) (character :: content)
  | escaped (character : Char) {text content : List Char}
      (others : SpellsContent quote text content) :
      SpellsContent quote ('\\' :: character :: text) (unescape character :: content)

theorem quotedBody?_complete {quote : Char} (notEscape : quote ≠ '\\') {text content : List Char}
    (spelled : SpellsContent quote text content) (rest : List Char) :
    quotedBody? quote (text ++ quote :: rest) = some (content, text ++ [quote], rest) := by
  induction spelled with
  | nil => exact quotedBody?_closing notEscape rest
  | plain notQuote plain _ induction =>
      rw [List.cons_append, quotedBody?_plain plain notQuote, induction]
      rfl
  | escaped character _ induction =>
      rw [List.cons_append, List.cons_append, quotedBody?_escaped, induction]
      rfl

theorem cutAt?_string (depth : Nat) {quote : Char} (isQuote : quote = '\'' ∨ quote = '"')
    {text content : List Char} (spelled : SpellsContent quote text content) (rest : List Char) :
    cutAt? depth (quote :: (text ++ [quote]) ++ rest) =
      some ⟨.quoted (String.ofList content), quote :: (text ++ [quote]), rest⟩ := by
  have notEscape : quote ≠ '\\' := by rcases isQuote with rfl | rfl <;> decide
  have quoted : quoted? (quote :: (text ++ [quote]) ++ rest) =
      some ⟨.quoted (String.ofList content), quote :: (text ++ [quote]), rest⟩ := by
    rw [List.cons_append, List.append_assoc, quoted?, if_pos isQuote, List.singleton_append,
      quotedBody?_complete notEscape spelled]
    rfl
  have other : symbol? pathSymbols (quote :: (text ++ [quote]) ++ rest) = none ∧
      symbol? filterSymbols (quote :: (text ++ [quote]) ++ rest) = none ∧
      number? (quote :: (text ++ [quote]) ++ rest) = none := by
    rcases isQuote with rfl | rfl <;> exact ⟨rfl, rfl, rfl⟩
  unfold cutAt?
  split
  · rw [pathCut?_eq, other.1, quoted]
    rfl
  · rw [filterCut?_eq, other.2.1, other.2.2, quoted]
    rfl

def escape (character : Char) : List Char :=
  if character = '"' ∨ character = '\\' then ['\\', character] else [character]

def quote (content : String) : List Char :=
  '"' :: (content.toList.flatMap escape ++ ['"'])

theorem spellsContent_escape (characters : List Char) :
    SpellsContent '"' (characters.flatMap escape) characters := by
  induction characters with
  | nil => exact .nil
  | cons character characters induction =>
      rw [List.flatMap_cons, escape]
      split
      next special =>
        have escaped := SpellsContent.escaped character induction
        have same : unescape character = character := by
          rcases special with rfl | rfl <;> rfl
        rwa [same] at escaped
      next plain =>
        rw [not_or] at plain
        exact .plain plain.1 plain.2 induction

theorem cutAt?_quote (depth : Nat) (content : String) (rest : List Char) :
    cutAt? depth (quote content ++ rest) = some ⟨.quoted content, quote content, rest⟩ := by
  have found := cutAt?_string depth (.inr rfl) (spellsContent_escape content.toList) rest
  rwa [String.ofList_toList] at found

/-! ## Identifiers -/

structure IsIdentifier (name : String) : Prop where
  spelled : ∃ first others, name.toList = first :: others ∧ isIdentifierStart first = true ∧
    ∀ character ∈ others, isIdentifierPart character = true
  notKeyword : name ≠ "true" ∧ name ≠ "false" ∧ name ≠ "null"

theorem word_of_not_keyword {name : String}
    (notKeyword : name ≠ "true" ∧ name ≠ "false" ∧ name ≠ "null") : word name = .name name := by
  rw [word, if_neg notKeyword.1, if_neg notKeyword.2.1, if_neg notKeyword.2.2]

theorem identifier?_complete {first : Char} {others rest : List Char}
    (starts : isIdentifierStart first = true)
    (parts : ∀ character ∈ others, isIdentifierPart character = true)
    (ends : ∀ character ∈ rest.head?, isIdentifierPart character = false) :
    identifier? (first :: others ++ rest) =
      some ⟨word (String.ofList (first :: others)), first :: others, rest⟩ := by
  have taken := takeWhile_append_stop parts ends
  rw [List.cons_append, identifier?, if_pos starts, taken.1, taken.2]

/-! ## Cutting them off -/

theorem delimits_cons {character : Char} (apart : isIdentifierPart character = false)
    (notPoint : character ≠ '.') (rest : List Char) : Delimits (character :: rest) := by
  intro next head
  cases head
  exact ⟨apart, notPoint⟩

theorem Delimits.not_runsOn {rest : List Char} (delimits : Delimits rest) (lexeme : Lexeme)
    (source : List Char) : runsOn? ⟨lexeme, source, rest⟩ = none := by
  unfold runsOn?
  split
  next text next others isNumber same =>
    cases same
    rcases delimits next rfl with ⟨notPart, notPoint⟩
    simp only [isIdentifierPart, Bool.or_eq_false_iff, decide_eq_false_iff_not] at notPart
    rw [if_neg]
    simp [notPart, notPoint]
  next => rfl

theorem quoted?_other {first : Char} (other : first ≠ '\'' ∧ first ≠ '"') (text : List Char) :
    quoted? (first :: text) = none := by
  rw [quoted?, if_neg (not_or.mpr other)]

theorem number?_other {first : Char} (notMinus : first ≠ '-') (notDigit : first.isDigit = false)
    (text : List Char) : number? (first :: text) = none := by
  have unsigned : minus (first :: text) = ([], first :: text) := by simp [minus, notMinus]
  have nothing : (first :: text).takeWhile Char.isDigit = [] := by simp [notDigit]
  rw [number?_eq, unsigned]
  dsimp only
  rw [nothing]

theorem isDigit_of_isIdentifierStart {character : Char}
    (starts : isIdentifierStart character = true) : character.isDigit = false := by
  rw [Bool.eq_false_iff]
  intro isDigit
  have upper := val_le_of_isDigit isDigit
  have small : character.toNat < 0x80 := Nat.lt_of_le_of_lt upper (by decide)
  simp only [isIdentifierStart, Text.isAlphabetic, small, if_true, Bool.or_eq_true,
    decide_eq_true_eq] at starts
  rcases starts with isAlpha | rfl
  · simp only [Char.isAlpha, Char.isUpper, Char.isLower, Bool.or_eq_true, decide_eq_true_eq,
      ge_iff_le, UInt32.le_iff_toNat_le] at isAlpha
    rcases isAlpha with isUpper | isLower
    · have lower : 65 ≤ character.val.toNat := isUpper.1
      omega
    · simp only [Bool.and_eq_true, decide_eq_true_eq] at isLower
      have lower : 97 ≤ character.val.toNat := isLower.1
      omega
  · exact absurd isDigit (by decide)

theorem cutAt?_word {first : Char} {others rest : List Char} (depth : Nat)
    (starts : isIdentifierStart first = true)
    (parts : ∀ character ∈ others, isIdentifierPart character = true)
    (ends : ∀ character ∈ rest.head?, isIdentifierPart character = false) :
    cutAt? (depth + 1) (first :: others ++ rest) =
      some ⟨word (String.ofList (first :: others)), first :: others, rest⟩ := by
  have notMinus : first ≠ '-' := by rintro rfl; exact absurd starts (by decide)
  have notQuote : first ≠ '\'' ∧ first ≠ '"' := by
    constructor <;> · rintro rfl; exact absurd starts (by decide)
  have notDigit := isDigit_of_isIdentifierStart starts
  have other : beginsOther first = true := by simp [beginsOther, starts]
  rw [cutAt?, if_neg (Nat.succ_ne_zero depth), filterCut?_eq,
    identifier?_complete starts parts ends, List.cons_append, symbol?_other other,
    number?_other notMinus notDigit, quoted?_other notQuote]
  rfl

theorem cutAt?_numeral {mark : Char} {source rest : List Char} {decimal : Decimal} (depth : Nat)
    (numeral : Numeral mark source decimal) (ends : EndsNumber rest) :
    cutAt? (depth + 1) (source ++ rest) =
      some ⟨.number (String.ofList source), source, rest⟩ := by
  rcases numeral.head with ⟨first, others, rfl, begins⟩
  have other : beginsOther first = true := by
    rcases begins with rfl | isDigit
    · rfl
    · simp [beginsOther, isDigit]
  rw [cutAt?, if_neg (Nat.succ_ne_zero depth), filterCut?_eq,
    number?_complete numeral ends, List.cons_append, symbol?_other other]
  rfl

theorem cutAt?_name {name rest : List Char} (isText : name ≠ [])
    (plain : ∀ character ∈ name, isNameCharacter character = true)
    (ends : ∀ character ∈ rest.head?, isNameCharacter character = false) :
    cutAt? 0 (name ++ rest) = some ⟨.name (String.ofList name), name, rest⟩ := by
  have taken := takeWhile_append_stop plain ends
  cases name with
  | nil => exact absurd rfl isText
  | cons first name =>
      have isName := plain first List.mem_cons_self
      have apart : ∀ lexeme ∈ pathSymbols,
          lexeme.text.toList.head?.map isNameCharacter = some false := by decide
      have notQuote : first ≠ '\'' ∧ first ≠ '"' := by
        constructor <;> · rintro rfl; exact absurd isName (by decide)
      rw [cutAt?, if_pos rfl, pathCut?_eq, bareName?, taken.1, taken.2, List.cons_append,
        symbol?_none apart isName, quoted?_other notQuote]
      rfl

namespace Cuts

variable {depth : Nat} {rest text source : List Char} {lexeme : Lexeme}

theorem cut (found : cutAt? depth text = some ⟨lexeme, source, rest⟩)
    (ends : runsOn? ⟨lexeme, source, rest⟩ = none) :
    Cuts (depthAfter depth lexeme) rest depth text [lexeme] :=
  .token found ends .done

theorem quoted (depth : Nat) (content : String) (rest : List Char) :
    Cuts depth rest depth (quote content ++ rest) [.quoted content] :=
  cut (cutAt?_quote depth content rest) rfl

theorem number {mark : Char} {decimal : Decimal} (depth : Nat)
    (numeral : Numeral mark source decimal) (delimits : Delimits rest) :
    Cuts (depth + 1) rest (depth + 1) (source ++ rest) [.number (String.ofList source)] :=
  cut (cutAt?_numeral depth numeral delimits.number) (delimits.not_runsOn _ _)

theorem identifier {name : String} (depth : Nat) (isIdentifier : IsIdentifier name)
    (delimits : Delimits rest) :
    Cuts (depth + 1) rest (depth + 1) (name.toList ++ rest) [.name name] := by
  rcases isIdentifier.spelled with ⟨first, others, spelled, starts, parts⟩
  have found := cutAt?_word depth starts parts delimits.word
  rw [← spelled, String.ofList_toList, word_of_not_keyword isIdentifier.notKeyword] at found
  exact cut found rfl

end Cuts

end JsonQuery.Lexer
