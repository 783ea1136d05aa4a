import JsonQuery.Json.Basic
import JsonQuery.Number.Scaling
import JsonQuery.Text.Blank
import JsonQuery.Text.Utf8

/-!
Strict reading of JSON text. Nothing is accepted beyond the grammar: no comments, trailing commas,
leading zeros or raw control characters. Containers may nest 127 deep, a number must be in the
range of a double, and escaped surrogates must come in pairs.
-/

namespace JsonQuery

inductive Json.Defect where
  | invalidEncoding
  | unexpectedEnd
  | unexpectedCharacter (character : Char)
  | trailingText
  | invalidEscape
  | loneSurrogate
  | controlCharacter
  | invalidNumber
  | numberOutOfRange
  | nestedTooDeeply

def Json.Defect.message : Json.Defect → String
  | .invalidEncoding => "invalid UTF-8"
  | .unexpectedEnd => "unexpected end of text"
  | .unexpectedCharacter character => s!"unexpected character '{character}'"
  | .trailingText => "text after the value"
  | .invalidEscape => "invalid escape"
  | .loneSurrogate => "lone surrogate"
  | .controlCharacter => "control character in a string"
  | .invalidNumber => "invalid number"
  | .numberOutOfRange => "number out of range"
  | .nestedTooDeeply => "nested too deeply"

namespace Json

abbrev Reader (α : Type) := List Char → Except Defect (α × List Char)

/-! ## Strings -/

def hexValue? (digit : Char) : Option Nat :=
  if digit.isDigit then some (digit.toNat - '0'.toNat)
  else if 'a' ≤ digit ∧ digit ≤ 'f' then some (digit.toNat - 'a'.toNat + 10)
  else if 'A' ≤ digit ∧ digit ≤ 'F' then some (digit.toNat - 'A'.toNat + 10)
  else none

def codeUnit? (first second third fourth : Char) : Option Nat := do
  let a ← hexValue? first
  let b ← hexValue? second
  let c ← hexValue? third
  let d ← hexValue? fourth
  some (((a * 16 + b) * 16 + c) * 16 + d)

def simpleEscape? (letter : Char) : Option Char :=
  if letter = '"' ∨ letter = '\\' ∨ letter = '/' then some letter
  else if letter = 'b' then some (Char.ofNat 0x8)
  else if letter = 'f' then some (Char.ofNat 0xC)
  else if letter = 'n' then some '\n'
  else if letter = 'r' then some '\r'
  else if letter = 't' then some '\t'
  else none

def isHighSurrogate (unit : Nat) : Bool := 0xD800 ≤ unit && unit < 0xDC00
def isLowSurrogate (unit : Nat) : Bool := 0xDC00 ≤ unit && unit < 0xE000

def readSurrogate (unit : Nat) : Reader Char := fun text =>
  if isHighSurrogate unit then
    match text with
    | backslash :: mark :: a :: b :: c :: d :: text =>
      if backslash = '\\' ∧ mark = 'u' then
        match codeUnit? a b c d with
        | some low =>
          if isLowSurrogate low then
            .ok (Char.ofNat (0x10000 + (unit - 0xD800) * 0x400 + (low - 0xDC00)), text)
          else .error .loneSurrogate
        | none => .error .invalidEscape
      else .error .loneSurrogate
    | _ => .error .loneSurrogate
  else if isLowSurrogate unit then .error .loneSurrogate
  else .ok (Char.ofNat unit, text)

def readEscape : Reader Char
  | [] => .error .unexpectedEnd
  | letter :: text =>
    if letter = 'u' then
      match text with
      | a :: b :: c :: d :: text =>
        match codeUnit? a b c d with
        | some unit => readSurrogate unit text
        | none => .error .invalidEscape
      | _ => .error .unexpectedEnd
    else match simpleEscape? letter with
      | some character => .ok (character, text)
      | none => .error .invalidEscape

def readCharacters : (budget : Nat) → Reader (List Char)
  | 0, _ | _, [] => .error .unexpectedEnd
  | budget + 1, character :: text =>
    if character = '"' then .ok ([], text)
    else if character = '\\' then do
      let (character, text) ← readEscape text
      let (characters, text) ← readCharacters budget text
      .ok (character :: characters, text)
    else if character.toNat < 0x20 then .error .controlCharacter
    else do
      let (characters, text) ← readCharacters budget text
      .ok (character :: characters, text)

def readString : Reader String := fun text => do
  let (characters, text) ← readCharacters text.length text
  .ok (String.ofList characters, text)

/-! ## Numbers -/

structure NumberText where
  negative : Bool
  whole : List Char
  fraction : Option (List Char)
  exponent : Option Int

def readDigits : Reader (List Char) := fun text =>
  match text.takeWhile Char.isDigit with
  | [] => .error .invalidNumber
  | digits => .ok (digits, text.dropWhile Char.isDigit)

def readWhole : Reader (List Char) := fun text => do
  let (digits, text) ← readDigits text
  if digits.head? = some '0' ∧ digits.length ≠ 1 then .error .invalidNumber
  else .ok (digits, text)

def readFraction : Reader (Option (List Char))
  | '.' :: text => do
    let (digits, text) ← readDigits text
    .ok (some digits, text)
  | text => .ok (none, text)

def readExponent : Reader (Option Int)
  | [] => .ok (none, [])
  | mark :: text =>
    if mark = 'e' ∨ mark = 'E' then do
      let (negative, text) := Decimal.splitSign text
      let (digits, text) ← readDigits text
      let size : Int := Digits.toNat digits
      .ok (some (if negative then -size else size), text)
    else .ok (none, mark :: text)

def readUnsigned (negative : Bool) : Reader NumberText := fun text => do
  let (whole, text) ← readWhole text
  let (fraction, text) ← readFraction text
  let (exponent, text) ← readExponent text
  .ok (⟨negative, whole, fraction, exponent⟩, text)

def readNumberText : Reader NumberText
  | '-' :: text => readUnsigned true text
  | text => readUnsigned false text

/-- The integer that a number without fraction and exponent stands for. A negative zero is not
an integer, because the sign of zero would be lost. -/
def NumberText.integer? (number : NumberText) : Option Int :=
  match number.fraction, number.exponent with
  | none, none =>
    let size : Int := Digits.toNat number.whole
    let value := if number.negative then -size else size
    if Number.holdsInteger value ∧ ¬(number.negative ∧ size = 0) then some value else none
  | _, _ => none

/-- Takes digits into a word of 64 bits until one no longer fits, and counts those that are left. -/
def takeDigits : (word : Nat) → List Char → Nat × Nat
  | word, [] => (word, 0)
  | word, digit :: digits =>
    let longer := word * 10 + Digits.value digit
    if longer < 0x10000000000000000 then takeDigits longer digits else (word, digits.length + 1)

def NumberText.toDouble? (number : NumberText) : Option FiniteDouble :=
  let fraction := number.fraction.getD []
  let exponent := number.exponent.getD 0
  let (whole, dropped) := takeDigits 0 number.whole
  let (word, ignored) := takeDigits whole fraction
  let scale : Int := dropped - (fraction.length - ignored : Nat)
  if 0x7FFFFFFF < exponent.natAbs then
    if word = 0 ∨ exponent < 0 then some (.zero number.negative) else none
  else FiniteDouble.ofScaled? number.negative word (scale + exponent)

def NumberText.toNumber? (number : NumberText) : Option Number :=
  match number.integer? with
  | some value => some (.integer value)
  | none => number.toDouble?.map .double

def readNumber : Reader Number := fun text => do
  let (spelled, text) ← readNumberText text
  match spelled.toNumber? with
  | some value => .ok (value, text)
  | none => .error .numberOutOfRange

/-! ## Values -/

/-- What is made of the values that are read, from the inside to the outside. -/
structure Builder (α : Type) where
  null : α
  bool : Bool → α
  number : Number → α
  string : String → α
  array : List α → α
  object : List (String × α) → α

def Builder.tree : Builder Json where
  null := .null
  bool := .bool
  number := .number
  string := .string
  array := .array
  object members := .object (mergeMembers members)

def Builder.nothing : Builder Unit where
  null := ()
  bool _ := ()
  number _ := ()
  string _ := ()
  array _ := ()
  object _ := ()

def readWord (word : List Char) (value : α) : Reader α := fun text =>
  if word.isPrefixOf text then .ok (value, text.drop word.length)
  else match text with
    | [] => .error .unexpectedEnd
    | character :: _ => .error (.unexpectedCharacter character)

/-- Reads the items of a container up to and with its closing bracket, where each item takes at
least one character and the first one has begun. -/
def readItems (item : Reader α) (close : Char) : (budget : Nat) → Reader (List α)
  | 0, _ => .error .unexpectedEnd
  | budget + 1, text => do
    let (first, text) ← item (Text.skipBlanks text)
    match Text.skipBlanks text with
    | [] => .error .unexpectedEnd
    | mark :: text =>
      if mark = ',' then
        let (items, text) ← readItems item close budget text
        .ok (first :: items, text)
      else if mark = close then .ok ([first], text)
      else .error (.unexpectedCharacter mark)

def readContainer (item : Reader α) (close : Char) : Reader (List α) := fun text =>
  match Text.skipBlanks text with
  | [] => .error .unexpectedEnd
  | mark :: rest =>
    if mark = close then .ok ([], rest)
    else readItems item close text.length (mark :: rest)

def readMember (value : Reader α) : Reader (String × α)
  | [] => .error .unexpectedEnd
  | quote :: text =>
    if quote = '"' then do
      let (name, text) ← readString text
      match Text.skipBlanks text with
      | [] => .error .unexpectedEnd
      | colon :: text =>
        if colon = ':' then
          let (member, text) ← value (Text.skipBlanks text)
          .ok ((name, member), text)
        else .error (.unexpectedCharacter colon)
    else .error (.unexpectedCharacter quote)

def readWith (builder : Builder α) : (levels : Nat) → Reader α
  | _, [] => .error .unexpectedEnd
  | levels, mark :: text =>
    if mark = '[' then
      match levels with
      | 0 => .error .nestedTooDeeply
      | levels + 1 => do
        let (elements, text) ← readContainer (readWith builder levels) ']' text
        .ok (builder.array elements, text)
    else if mark = '{' then
      match levels with
      | 0 => .error .nestedTooDeeply
      | levels + 1 => do
        let (members, text) ← readContainer (readMember (readWith builder levels)) '}' text
        .ok (builder.object members, text)
    else if mark = '"' then do
      let (content, text) ← readString text
      .ok (builder.string content, text)
    else if mark = 'n' then readWord "null".toList builder.null (mark :: text)
    else if mark = 't' then readWord "true".toList (builder.bool true) (mark :: text)
    else if mark = 'f' then readWord "false".toList (builder.bool false) (mark :: text)
    else if mark = '-' ∨ mark.isDigit then do
      let (value, text) ← readNumber (mark :: text)
      .ok (builder.number value, text)
    else .error (.unexpectedCharacter mark)

def readValue : (levels : Nat) → Reader Json :=
  readWith .tree

def nestingLimit : Nat := 127

def readAll (reader : Reader α) (text : List Char) : Except Defect α := do
  let (value, rest) ← reader (Text.skipBlanks text)
  if Text.skipBlanks rest = [] then .ok value else .error .trailingText

def parse (text : List Char) : Except Defect Json :=
  readAll (readValue nestingLimit) text

def decode (bytes : List UInt8) : Except Defect Json :=
  match Utf8.decode? bytes with
  | some text => parse text
  | none => .error .invalidEncoding

def validate (bytes : List UInt8) : Except Defect Unit :=
  match Utf8.decode? bytes with
  | some text => readAll (readWith .nothing nestingLimit) text
  | none => .error .invalidEncoding

def decodeString? (bytes : List UInt8) : Option String :=
  match Utf8.decode? bytes with
  | some ('"' :: text) =>
    match readString text with
    | .ok (content, []) => some content
    | _ => none
  | _ => none

end Json

end JsonQuery
