import JsonQuery.Json.Read

/-!
The grammar of JSON text, stated beside the readers and without them: which texts spell which
values. A text spells a tree as it is written, with the members of an object in the order of the
text and repeated names kept apart; what a reader makes of it has them merged.

A grammar is given for each level of nesting from the one below it, so facts about texts are
proved by induction on the level.
-/

namespace JsonQuery.Json

def Blanks (text : List Char) : Prop :=
  ∀ character ∈ text, Text.isBlank character = true

/-! ## Strings -/

inductive EscapeText : List Char → Char → Prop
  | simple {letter character : Char} (named : simpleEscape? letter = some character) :
      EscapeText [letter] character
  | unit {a b c d : Char} {unit : Nat} (digits : codeUnit? a b c d = some unit)
      (notHigh : isHighSurrogate unit = false) (notLow : isLowSurrogate unit = false) :
      EscapeText ['u', a, b, c, d] (Char.ofNat unit)
  | pair {a b c d e f g h : Char} {high low : Nat} (highDigits : codeUnit? a b c d = some high)
      (isHigh : isHighSurrogate high = true) (lowDigits : codeUnit? e f g h = some low)
      (isLow : isLowSurrogate low = true) :
      EscapeText ['u', a, b, c, d, '\\', 'u', e, f, g, h]
        (Char.ofNat (0x10000 + (high - 0xD800) * 0x400 + (low - 0xDC00)))

inductive CharacterText : List Char → Char → Prop
  | plain {character : Char} (notQuote : character ≠ '"') (notBackslash : character ≠ '\\')
      (printable : ¬character.toNat < 0x20) : CharacterText [character] character
  | escape {text : List Char} {character : Char} (escaped : EscapeText text character) :
      CharacterText ('\\' :: text) character

inductive StringBody : List Char → List Char → Prop
  | nil : StringBody [] []
  | cons {text rest characters : List Char} {character : Char}
      (first : CharacterText text character) (others : StringBody rest characters) :
      StringBody (text ++ rest) (character :: characters)

inductive Quoted : List Char → String → Prop
  | intro {body characters : List Char} (spelled : StringBody body characters) :
      Quoted ('"' :: (body ++ ['"'])) (String.ofList characters)

/-! ## Numbers -/

def DigitText (text : List Char) : Prop :=
  text ≠ [] ∧ ∀ character ∈ text, character.isDigit = true

/-- The digits before the point: a lone zero, or digits that do not begin with zero. -/
def WholeText (text : List Char) : Prop :=
  DigitText text ∧ ¬(text.head? = some '0' ∧ text.length ≠ 1)

inductive FractionText : List Char → Option (List Char) → Prop
  | none : FractionText [] none
  | some {digits : List Char} (isDigits : DigitText digits) :
      FractionText ('.' :: digits) (some digits)

inductive SignText : List Char → Bool → Prop
  | none : SignText [] false
  | plus : SignText ['+'] false
  | minus : SignText ['-'] true

inductive ExponentText : List Char → Option Int → Prop
  | none : ExponentText [] none
  | some {mark : Char} {sign digits : List Char} {negative : Bool}
      (isMark : mark = 'e' ∨ mark = 'E') (signed : SignText sign negative)
      (isDigits : DigitText digits) :
      ExponentText (mark :: (sign ++ digits))
        (some (if negative then -(Digits.toNat digits : Int) else Digits.toNat digits))

inductive NumberParts : List Char → NumberText → Prop
  | intro {sign whole fractionText exponentText : List Char} {negative : Bool}
      {fraction : Option (List Char)} {exponent : Option Int}
      (signed : sign = if negative then ['-'] else []) (isWhole : WholeText whole)
      (hasFraction : FractionText fractionText fraction)
      (hasExponent : ExponentText exponentText exponent) :
      NumberParts (sign ++ (whole ++ (fractionText ++ exponentText)))
        ⟨negative, whole, fraction, exponent⟩

/-! ## Values -/

inductive Scalar : List Char → Json → Prop
  | null : Scalar ['n', 'u', 'l', 'l'] .null
  | true : Scalar ['t', 'r', 'u', 'e'] (.bool Bool.true)
  | false : Scalar ['f', 'a', 'l', 's', 'e'] (.bool Bool.false)
  | string {text : List Char} {content : String} (quoted : Quoted text content) :
      Scalar text (.string content)
  | number {text : List Char} {spelled : NumberText} {value : Number}
      (parts : NumberParts text spelled) (inRange : spelled.toNumber? = some value) :
      Scalar text (.number value)

/-- One or more items with commas between them and blanks around them. -/
inductive Listing (item : List Char → α → Prop) : List Char → List α → Prop
  | last {before text after : List Char} {value : α} (blanksBefore : Blanks before)
      (spelled : item text value) (blanksAfter : Blanks after) :
      Listing item (before ++ (text ++ after)) [value]
  | more {before text after rest : List Char} {value : α} {values : List α}
      (blanksBefore : Blanks before) (spelled : item text value) (blanksAfter : Blanks after)
      (others : Listing item rest values) :
      Listing item (before ++ (text ++ (after ++ ',' :: rest))) (value :: values)

inductive Inside (item : List Char → α → Prop) : List Char → List α → Prop
  | empty {blanks : List Char} (isBlanks : Blanks blanks) : Inside item blanks []
  | items {text : List Char} {values : List α} (listed : Listing item text values) :
      Inside item text values

inductive Member (spells : List Char → Json → Prop) : List Char → String × Json → Prop
  | intro {quotedName before after text : List Char} {name : String} {value : Json}
      (named : Quoted quotedName name) (blanksBefore : Blanks before) (blanksAfter : Blanks after)
      (spelled : spells text value) :
      Member spells (quotedName ++ (before ++ ':' :: (after ++ text))) (name, value)

inductive Composite (spells : List Char → Json → Prop) : List Char → Json → Prop
  | array {text : List Char} {elements : List Json} (inside : Inside spells text elements) :
      Composite spells ('[' :: (text ++ [']'])) (.array elements)
  | object {text : List Char} {members : List (String × Json)}
      (inside : Inside (Member spells) text members) :
      Composite spells ('{' :: (text ++ ['}'])) (.object members)

/-- The values in which containers nest at most `levels` deep. -/
def Spells : (levels : Nat) → List Char → Json → Prop
  | 0, text, tree => Scalar text tree
  | levels + 1, text, tree => Scalar text tree ∨ Composite (Spells levels) text tree

/-- The texts of whole documents: a value with blanks around it. -/
inductive DocumentText : List Char → Json → Prop
  | intro {before text after : List Char} {tree : Json} (blanksBefore : Blanks before)
      (spelled : Spells nestingLimit text tree) (blanksAfter : Blanks after) :
      DocumentText (before ++ (text ++ after)) tree

end JsonQuery.Json
