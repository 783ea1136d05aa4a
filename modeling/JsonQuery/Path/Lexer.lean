import JsonQuery.Path.Token
import JsonQuery.Text.Blank
import JsonQuery.Text.Numeric

/-!
Cutting path text into tokens. Outside brackets the text consists of separators and field names;
inside any bracket it is cut as filter text, with operators, numbers, quoted strings and
identifiers. A quoted string is one token, so a bracket within it closes nothing.
-/

namespace JsonQuery.Lexer

structure Cut where
  lexeme : Lexeme
  source : List Char
  rest : List Char

/-! ## Symbols -/

def symbol? (symbols : List Lexeme) (text : List Char) : Option Cut :=
  (symbols.find? fun lexeme => lexeme.text.toList.isPrefixOf text).map fun lexeme =>
    ⟨lexeme, lexeme.text.toList, text.drop lexeme.text.toList.length⟩

/-- Longer symbols stand before those that they begin with. -/
def pathSymbols : List Lexeme :=
  [.doubleSlash, .slash, .doubleDot, .dot, .openBracket, .star]

def filterSymbols : List Lexeme :=
  [.equal, .notEqual, .lessOrEqual, .greaterOrEqual, .less, .greater, .and, .or, .not,
   .openBracket, .closeBracket, .openParenthesis, .closeParenthesis, .colon, .comma, .star,
   .question, .current, .dot]

/-! ## Quoted strings -/

def unescape (character : Char) : Char :=
  if character = 'n' then '\n'
  else if character = 't' then '\t'
  else if character = 'r' then '\r'
  else character

def quotedBody? (quote : Char) : List Char → Option (List Char × List Char × List Char)
  | [] => none
  | character :: text =>
    if character = '\\' then
      match text with
      | [] => none
      | escaped :: text => do
        let (content, source, rest) ← quotedBody? quote text
        some (unescape escaped :: content, character :: escaped :: source, rest)
    else if character = quote then some ([], [character], text)
    else do
      let (content, source, rest) ← quotedBody? quote text
      some (character :: content, character :: source, rest)

def quoted? : List Char → Option Cut
  | [] => none
  | quote :: text =>
    if quote = '\'' ∨ quote = '"' then do
      let (content, source, rest) ← quotedBody? quote text
      some ⟨.quoted (String.ofList content), quote :: source, rest⟩
    else none

/-! ## Names and numbers -/

def isNameCharacter (character : Char) : Bool :=
  !(character = '/' || character = '.' || character = '[' || character = ']' ||
    character = '\'' || character = '"' || character = '*' || Text.isSpace character)

def bareName? (text : List Char) : Option Cut :=
  match text.takeWhile isNameCharacter with
  | [] => none
  | source => some ⟨.name (String.ofList source), source, text.dropWhile isNameCharacter⟩

def isIdentifierStart (character : Char) : Bool :=
  Text.isAlphabetic character || character = '_'

def isIdentifierPart (character : Char) : Bool :=
  Text.isAlphanumeric character || character = '_' || character = '-'

def word (text : String) : Lexeme :=
  if text = "true" then .trueWord
  else if text = "false" then .falseWord
  else if text = "null" then .nullWord
  else .name text

def identifier? : List Char → Option Cut
  | [] => none
  | first :: text =>
    if isIdentifierStart first then
      let source := first :: text.takeWhile isIdentifierPart
      some ⟨word (String.ofList source), source, text.dropWhile isIdentifierPart⟩
    else none

def fraction : List Char → List Char × List Char
  | '.' :: text =>
    match text.takeWhile Char.isDigit with
    | [] => ([], '.' :: text)
    | digits => ('.' :: digits, text.dropWhile Char.isDigit)
  | text => ([], text)

def sign : List Char → List Char × List Char
  | '+' :: text => (['+'], text)
  | '-' :: text => (['-'], text)
  | text => ([], text)

def exponent : List Char → List Char × List Char
  | [] => ([], [])
  | mark :: text =>
    if mark = 'e' ∨ mark = 'E' then
      let (sign, digits) := sign text
      match digits.takeWhile Char.isDigit with
      | [] => ([], mark :: text)
      | power => (mark :: sign ++ power, digits.dropWhile Char.isDigit)
    else ([], mark :: text)

def number? (text : List Char) : Option Cut :=
  let (minus, text) := match text with
    | '-' :: text => (['-'], text)
    | text => ([], text)
  match text.takeWhile Char.isDigit with
  | [] => none
  | whole =>
    let (fraction, text) := fraction (text.dropWhile Char.isDigit)
    let (exponent, rest) := exponent text
    let source := minus ++ whole ++ fraction ++ exponent
    some ⟨.number (String.ofList source), source, rest⟩

/-! ## Tokens -/

def pathCut? (text : List Char) : Option Cut :=
  symbol? pathSymbols text <|> quoted? text <|> bareName? text

def filterCut? (text : List Char) : Option Cut :=
  symbol? filterSymbols text <|> number? text <|> quoted? text <|> identifier? text

def noToken (character : Char) : Complaint :=
  if character = '\'' ∨ character = '"' then .unterminatedString
  else if character = ']' then .unmatchedClosing
  else if character = '-' then .strayMinus
  else .unexpectedCharacter character

/-- A number may not run straight into a name or a second point. -/
def runsOn? (cut : Cut) : Option Complaint :=
  match cut.lexeme, cut.rest with
  | .number text, next :: _ =>
    if Text.isAlphanumeric next || next = '_' || next = '.' then
      some (.invalidNumber (text.push next))
    else none
  | _, _ => none

def depthAfter (depth : Nat) : Lexeme → Nat
  | .openBracket => depth + 1
  | .closeBracket => depth - 1
  | _ => depth

/-- Cuts at most `budget` tokens off a text that begins at byte `position` inside `depth` open
brackets, and ends with the token that marks the end. -/
def tokens : (budget depth position : Nat) → List Char → Except Refusal (List Token)
  | budget, depth, position, text =>
    let position := position + Utf8.width (text.takeWhile Text.isBlank)
    match Text.skipBlanks text, budget with
    | [], _ =>
      if depth = 0 then .ok [⟨.finish, position⟩]
      else .error ⟨position, .unmatchedOpening⟩
    | first :: _, 0 => .error ⟨position, noToken first⟩
    | first :: rest, budget + 1 =>
      match if depth = 0 then pathCut? (first :: rest) else filterCut? (first :: rest) with
      | none => .error ⟨position, noToken first⟩
      | some cut =>
        match runsOn? cut with
        | some complaint => .error ⟨position, complaint⟩
        | none => do
          let others ← tokens budget (depthAfter depth cut.lexeme)
            (position + Utf8.width cut.source) cut.rest
          .ok (⟨cut.lexeme, position⟩ :: others)

def endsRoot : List Char → Bool
  | [] => true
  | character :: _ =>
    character = '/' || character = '.' || character = '[' || Text.isSpace character

def tokenize (path : String) : Except Refusal (List Token) :=
  let text := path.toList
  let position := Utf8.width (text.takeWhile Text.isBlank)
  match Text.skipBlanks text with
  | '$' :: rest =>
    if endsRoot rest then do
      let others ← tokens text.length 0 (position + 1) rest
      .ok (⟨.root, position⟩ :: others)
    else tokens text.length 0 0 text
  | _ => tokens text.length 0 0 text

example : tokenize "a[0]" = .ok
    [⟨.name "a", 0⟩, ⟨.openBracket, 1⟩, ⟨.number "0", 2⟩, ⟨.closeBracket, 3⟩, ⟨.finish, 4⟩] := rfl

end JsonQuery.Lexer
