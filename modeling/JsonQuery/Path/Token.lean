import JsonQuery.Text.Utf8

/-!
The tokens of path text, and the complaints with which a text is refused.
-/

namespace JsonQuery

/-- What a token is. A quoted string is kept without its quotes and escapes, a name or number as
it is written. -/
inductive Lexeme where
  | root
  | slash
  | doubleSlash
  | dot
  | doubleDot
  | openBracket
  | closeBracket
  | star
  | openParenthesis
  | closeParenthesis
  | colon
  | comma
  | question
  | current
  | equal
  | notEqual
  | less
  | lessOrEqual
  | greater
  | greaterOrEqual
  | and
  | or
  | not
  | name (text : String)
  | quoted (content : String)
  | number (text : String)
  | trueWord
  | falseWord
  | nullWord
  | finish
  deriving DecidableEq

namespace Lexeme

def text : Lexeme → String
  | .root => "$"
  | .slash => "/"
  | .doubleSlash => "//"
  | .dot => "."
  | .doubleDot => ".."
  | .openBracket => "["
  | .closeBracket => "]"
  | .star => "*"
  | .openParenthesis => "("
  | .closeParenthesis => ")"
  | .colon => ":"
  | .comma => ","
  | .question => "?"
  | .current => "@"
  | .equal => "=="
  | .notEqual => "!="
  | .less => "<"
  | .lessOrEqual => "<="
  | .greater => ">"
  | .greaterOrEqual => ">="
  | .and => "&&"
  | .or => "||"
  | .not => "!"
  | .name text => text
  | .quoted content => content
  | .number text => text
  | .trueWord => "true"
  | .falseWord => "false"
  | .nullWord => "null"
  | .finish => ""

def describe : Lexeme → String
  | .name _ => "a name"
  | .quoted _ => "a quoted string"
  | .number _ => "a number"
  | .finish => "end of input"
  | lexeme => s!"'{lexeme.text}'"

def fieldName? : Lexeme → Option String
  | .name text => some text
  | .quoted content => some content
  | _ => none

end Lexeme

/-- A lexeme and the offset, in bytes, at which it begins. -/
structure Token where
  lexeme : Lexeme
  position : Nat
  deriving DecidableEq

/-! ## Complaints -/

inductive Wanted where
  | pathStep
  | separator
  | fieldAfterDoubleSlash
  | fieldAfterDoubleDot
  | fieldAfterDot
  | bracketContent
  | bracketEnd
  | filterStart
  | filterEnd
  | groupEnd
  | operand
  | argumentsStart
  | argumentsEnd
  | segment
  | expressionEnd
  deriving DecidableEq

def Wanted.describe : Wanted → String
  | .pathStep => "a path step"
  | .separator => "'/' or '.'"
  | .fieldAfterDoubleSlash => "a field name after '//'"
  | .fieldAfterDoubleDot => "a field name after '..'"
  | .fieldAfterDot => "a field name after '.'"
  | .bracketContent => "an index, slice, '*', name or filter"
  | .bracketEnd => "']'"
  | .filterStart => "'(' after '?'"
  | .filterEnd => "')' to close the filter"
  | .groupEnd => "')'"
  | .operand => "a literal, '@' reference or function call"
  | .argumentsStart => "'('"
  | .argumentsEnd => "')' to close the arguments"
  | .segment => "an index or quoted name"
  | .expressionEnd => "end of expression"

inductive Complaint where
  | unterminatedString
  | unmatchedOpening
  | unmatchedClosing
  | strayMinus
  | unexpectedCharacter (character : Char)
  | invalidNumber (text : String)
  | notAnInteger (text : String)
  | secondColon
  | expected (wanted : Wanted) (found : Option Lexeme)
  deriving DecidableEq

def Complaint.message : Complaint → String
  | .unterminatedString => "unterminated string literal"
  | .unmatchedOpening => "unmatched '['"
  | .unmatchedClosing => "unmatched ']'"
  | .strayMinus => "invalid numeric literal"
  | .unexpectedCharacter character => s!"unexpected character '{character}'"
  | .invalidNumber text => s!"invalid numeric literal '{text}'"
  | .notAnInteger text => s!"invalid numeric literal '{text}': expected an integer"
  | .secondColon => "slice accepts at most one ':'"
  | .expected wanted (some lexeme) => s!"expected {wanted.describe}, found '{lexeme.text}'"
  | .expected wanted none => s!"expected {wanted.describe}, found end of input"

structure Refusal where
  position : Nat
  complaint : Complaint
  deriving DecidableEq

end JsonQuery
