import JsonQuery.Number.Decimal
import JsonQuery.Path.Error
import JsonQuery.Path.Lexer
import JsonQuery.Path.Query

/-!
The grammar of paths and filters over tokens. The next token, or in one place the next two, always
decides what follows, so no reader ever goes back. A reader stops at the token that it cannot use,
and the complaint is about that token.

Brackets, parentheses and argument lists nest to any depth; the number of tokens bounds it.
-/

namespace JsonQuery.Grammar

structure Fault where
  remaining : List Token
  complaint : Complaint

abbrev Reader (α : Type) := List Token → Except Fault (α × List Token)

def Fault.refusal (fault : Fault) (width : Nat) : Refusal :=
  match fault.remaining with
  | token :: _ => ⟨token.position, fault.complaint⟩
  | [] => ⟨width, fault.complaint⟩

def nextLexeme? : List Token → Option Lexeme
  | ⟨.finish, _⟩ :: _ | [] => none
  | ⟨lexeme, _⟩ :: _ => some lexeme

def unmet (wanted : Wanted) (tokens : List Token) : Fault :=
  ⟨tokens, .expected wanted (nextLexeme? tokens)⟩

def expect (lexeme : Lexeme) (wanted : Wanted) : List Token → Except Fault (List Token)
  | token :: rest =>
    if token.lexeme = lexeme then .ok rest else .error (unmet wanted (token :: rest))
  | [] => .error (unmet wanted [])

def readName (wanted : Wanted) : Reader String
  | token :: rest =>
    match token.lexeme.fieldName? with
    | some name => .ok (name, rest)
    | none => .error (unmet wanted (token :: rest))
  | [] => .error (unmet wanted [])

def integer (text : String) (tokens : List Token) : Except Fault Int :=
  match Digits.readInteger? text.toList with
  | some value => .ok value
  | none => .error ⟨tokens, .notAnInteger text⟩

/-! ## Operands -/

def readSegments : Reader (List Segment)
  | ⟨.dot, _⟩ :: ⟨.name name, _⟩ :: rest | ⟨.dot, _⟩ :: ⟨.quoted name, _⟩ :: rest => do
    let (segments, rest) ← readSegments rest
    .ok (.key name :: segments, rest)
  | ⟨.dot, _⟩ :: rest => .error (unmet .fieldAfterDot rest)
  | ⟨.openBracket, _⟩ :: ⟨.quoted name, _⟩ :: ⟨.closeBracket, _⟩ :: rest => do
    let (segments, rest) ← readSegments rest
    .ok (.key name :: segments, rest)
  | ⟨.openBracket, _⟩ :: ⟨.quoted _, _⟩ :: rest => .error (unmet .bracketEnd rest)
  | ⟨.openBracket, _⟩ :: ⟨.number text, position⟩ :: ⟨.closeBracket, closing⟩ :: rest => do
    let index ← integer text (⟨.number text, position⟩ :: ⟨.closeBracket, closing⟩ :: rest)
    let (segments, rest) ← readSegments rest
    .ok (.index index :: segments, rest)
  | ⟨.openBracket, _⟩ :: ⟨.number text, position⟩ :: rest => do
    let _ ← integer text (⟨.number text, position⟩ :: rest)
    .error (unmet .bracketEnd rest)
  | ⟨.openBracket, _⟩ :: rest => .error (unmet .segment rest)
  | tokens => .ok ([], tokens)

def startsOperand : List Token → Bool
  | ⟨.nullWord, _⟩ :: _ | ⟨.trueWord, _⟩ :: _ | ⟨.falseWord, _⟩ :: _ => true
  | ⟨.quoted _, _⟩ :: _ | ⟨.number _, _⟩ :: _ | ⟨.current, _⟩ :: _ => true
  | ⟨.name _, _⟩ :: ⟨.openParenthesis, _⟩ :: _ => true
  | _ => false

/-- Reads the arguments after the first one, each with the comma before it. A comma that no
operand follows is left where it is. -/
def readMoreArguments (operand : Reader Expression) : (budget : Nat) → Reader (List Expression)
  | budget + 1, ⟨.comma, position⟩ :: rest =>
    if startsOperand rest then do
      let (argument, rest) ← operand rest
      let (arguments, rest) ← readMoreArguments operand budget rest
      .ok (argument :: arguments, rest)
    else .ok ([], ⟨.comma, position⟩ :: rest)
  | _, tokens => .ok ([], tokens)

def readArguments (operand : Reader Expression) : Reader (List Expression) := fun tokens =>
  if startsOperand tokens then do
    let (argument, rest) ← operand tokens
    let (arguments, rest) ← readMoreArguments operand rest.length rest
    let rest ← expect .closeParenthesis .argumentsEnd rest
    .ok (argument :: arguments, rest)
  else do
    let rest ← expect .closeParenthesis .argumentsEnd tokens
    .ok ([], rest)

def readOperand : (nesting : Nat) → Reader Expression
  | _, ⟨.nullWord, _⟩ :: rest => .ok (.literal .null, rest)
  | _, ⟨.trueWord, _⟩ :: rest => .ok (.literal (.bool true), rest)
  | _, ⟨.falseWord, _⟩ :: rest => .ok (.literal (.bool false), rest)
  | _, ⟨.quoted content, _⟩ :: rest => .ok (.literal (.string content), rest)
  | _, ⟨.number text, position⟩ :: rest =>
    match Double.read? text.toList with
    | some value => .ok (.literal (.number value), rest)
    | none => .error ⟨⟨.number text, position⟩ :: rest, .invalidNumber text⟩
  | _, ⟨.current, _⟩ :: rest => do
    let (segments, rest) ← readSegments rest
    .ok (.reference segments, rest)
  | nesting + 1, ⟨.name name, _⟩ :: ⟨.openParenthesis, _⟩ :: rest => do
    let (arguments, rest) ← readArguments (readOperand nesting) rest
    .ok (.call name arguments, rest)
  | _, ⟨.name _, _⟩ :: rest => .error (unmet .argumentsStart rest)
  | _, tokens => .error (unmet .operand tokens)

/-! ## Filter expressions -/

def comparison? : Lexeme → Option Operator
  | .equal => some .equal
  | .notEqual => some .notEqual
  | .less => some .less
  | .lessOrEqual => some .lessOrEqual
  | .greater => some .greater
  | .greaterOrEqual => some .greaterOrEqual
  | _ => none

def readComparison (operand : Reader Expression) : Reader Expression := fun tokens => do
  let (left, rest) ← operand tokens
  match rest with
  | token :: after =>
    match comparison? token.lexeme with
    | some operator =>
      let (right, rest) ← operand after
      .ok (.binary operator left right, rest)
    | none => .ok (left, rest)
  | [] => .ok (left, rest)

def readUnary (inner operand : Reader Expression) : Reader Expression
  | ⟨.not, _⟩ :: rest => do
    let (negated, rest) ← readUnary inner operand rest
    .ok (.not negated, rest)
  | ⟨.openParenthesis, _⟩ :: rest => do
    let (grouped, rest) ← inner rest
    let rest ← expect .closeParenthesis .groupEnd rest
    .ok (grouped, rest)
  | tokens => readComparison operand tokens

def readJoined (item : Reader Expression) (joint : Lexeme) (operator : Operator) :
    (budget : Nat) → Expression → Reader Expression
  | budget + 1, left, token :: rest =>
    if token.lexeme = joint then do
      let (right, rest) ← item rest
      readJoined item joint operator budget (.binary operator left right) rest
    else .ok (left, token :: rest)
  | _, left, tokens => .ok (left, tokens)

def readChain (item : Reader Expression) (joint : Lexeme) (operator : Operator) :
    Reader Expression := fun tokens => do
  let (left, rest) ← item tokens
  readJoined item joint operator rest.length left rest

/-- Reads an expression in which parentheses nest fewer than `nesting` deep. Negation binds more
tightly than `&&`, and `&&` more tightly than `||`. -/
def readExpression : (nesting : Nat) → Reader Expression
  | 0, tokens => .error (unmet .operand tokens)
  | nesting + 1, tokens =>
    let unary := readUnary (readExpression nesting) (readOperand (nesting + 1))
    let conjunction := readChain unary .and .and
    readChain conjunction .or .or tokens

def readCondition : Reader Expression := fun tokens =>
  readExpression (tokens.length + 1) tokens

/-! ## Brackets -/

inductive Bracket where
  | index (position : Int)
  | slice (start stop : Option Int)
  | wildcard
  | field (name : String)
  | filter (condition : Expression)

def readBound : Reader (Option Int)
  | ⟨.number text, position⟩ :: rest => do
    let bound ← integer text (⟨.number text, position⟩ :: rest)
    .ok (some bound, rest)
  | tokens => .ok (none, tokens)

def readRange : Reader Bracket := fun tokens => do
  let (start, rest) ← readBound tokens
  match rest, start with
  | ⟨.colon, _⟩ :: rest, _ =>
    let (stop, rest) ← readBound rest
    match rest with
    | ⟨.colon, _⟩ :: _ => .error ⟨rest, .secondColon⟩
    | _ => .ok (.slice start stop, rest)
  | _, some position => .ok (.index position, rest)
  | _, none => .error (unmet .bracketContent tokens)

def readContent : Reader Bracket
  | ⟨.question, _⟩ :: rest => do
    let rest ← expect .openParenthesis .filterStart rest
    let (condition, rest) ← readCondition rest
    let rest ← expect .closeParenthesis .filterEnd rest
    .ok (.filter condition, rest)
  | ⟨.star, _⟩ :: rest => .ok (.wildcard, rest)
  | ⟨.quoted name, _⟩ :: rest => .ok (.field name, rest)
  | tokens => readRange tokens

def readBracket : Reader Bracket := fun tokens => do
  let (bracket, rest) ← readContent tokens
  let rest ← expect .closeBracket .bracketEnd rest
  .ok (bracket, rest)

def readBrackets : (budget : Nat) → Reader (List Bracket)
  | budget + 1, ⟨.openBracket, _⟩ :: rest => do
    let (bracket, rest) ← readBracket rest
    let (brackets, rest) ← readBrackets budget rest
    .ok (bracket :: brackets, rest)
  | _, tokens => .ok ([], tokens)

/-! ## Steps -/

def Bracket.toStep : Bracket → Step
  | .index position => ⟨.index position, []⟩
  | .slice start stop => ⟨.slice start stop, []⟩
  | .wildcard => ⟨.wildcard, []⟩
  | .field name => ⟨.field name, []⟩
  | .filter condition => ⟨.current, [.filter condition]⟩

/-- A step and the brackets after it. Indices, slices and filters refine the step before them;
a wildcard or a name begins a new step. -/
def attach (step : Step) : List Bracket → List Step
  | [] => [step]
  | .index position :: brackets =>
    attach { step with predicates := step.predicates ++ [.index position] } brackets
  | .slice start stop :: brackets =>
    attach { step with predicates := step.predicates ++ [.slice start stop] } brackets
  | .filter condition :: brackets =>
    attach { step with predicates := step.predicates ++ [.filter condition] } brackets
  | .wildcard :: brackets => step :: attach ⟨.wildcard, []⟩ brackets
  | .field name :: brackets => step :: attach ⟨.field name, []⟩ brackets

def startsStep : List Token → Bool
  | ⟨.name _, _⟩ :: _ | ⟨.quoted _, _⟩ :: _ | ⟨.star, _⟩ :: _ => true
  | ⟨.doubleSlash, _⟩ :: _ | ⟨.doubleDot, _⟩ :: _ | ⟨.openBracket, _⟩ :: _ => true
  | _ => false

def readAfterDoubleDot : Reader Step := fun tokens =>
  match tokens with
  | ⟨.slash, _⟩ :: _ | ⟨.finish, _⟩ :: _ => .ok (⟨.parent, []⟩, tokens)
  | _ => do
    let (name, rest) ← readName .fieldAfterDoubleDot tokens
    .ok (⟨.recursive name, []⟩, rest)

def readStep : Reader Step
  | ⟨.star, _⟩ :: rest => .ok (⟨.wildcard, []⟩, rest)
  | ⟨.doubleSlash, _⟩ :: rest => do
    let (name, rest) ← readName .fieldAfterDoubleSlash rest
    .ok (⟨.recursive name, []⟩, rest)
  | ⟨.doubleDot, _⟩ :: rest => readAfterDoubleDot rest
  | ⟨.openBracket, _⟩ :: rest => do
    let (bracket, rest) ← readBracket rest
    .ok (bracket.toStep, rest)
  | tokens => do
    let (name, rest) ← readName .pathStep tokens
    .ok (⟨.field name, []⟩, rest)

def readStepEnd (tokens : List Token) : Except Fault (List Token) :=
  match tokens with
  | ⟨.slash, _⟩ :: rest | ⟨.dot, _⟩ :: rest => .ok rest
  | ⟨.doubleSlash, _⟩ :: _ | ⟨.doubleDot, _⟩ :: _ | ⟨.finish, _⟩ :: _ => .ok tokens
  | _ => .error (unmet .separator tokens)

def readSteps : (budget : Nat) → Reader (List Step)
  | 0, tokens => .ok ([], tokens)
  | budget + 1, tokens =>
    if startsStep tokens then do
      let (step, rest) ← readStep tokens
      let (brackets, rest) ← readBrackets rest.length rest
      let rest ← readStepEnd rest
      let (steps, rest) ← readSteps budget rest
      .ok (attach step brackets ++ steps, rest)
    else .ok ([], tokens)

def skipRoot : List Token → List Token
  | ⟨.root, _⟩ :: rest => rest
  | tokens => tokens

def skipSeparator : List Token → List Token
  | ⟨.slash, _⟩ :: rest | ⟨.dot, _⟩ :: rest => rest
  | tokens => tokens

def readQuery (tokens : List Token) : Except Fault Query := do
  let tokens := skipSeparator (skipRoot tokens)
  let (steps, rest) ← readSteps tokens.length tokens
  let _ ← expect .finish .pathStep rest
  .ok ⟨steps⟩

def readFilter (tokens : List Token) : Except Fault Expression := do
  let (condition, rest) ← readCondition (tokens.drop 3)
  let rest ← expect .closeParenthesis .groupEnd rest
  let rest ← expect .closeBracket .bracketEnd rest
  let _ ← expect .finish .expressionEnd rest
  .ok condition

def readText (reader : List Token → Except Fault α) (text : String) : Except Refusal α := do
  let tokens ← Lexer.tokenize text
  (reader tokens).mapError fun fault => fault.refusal (Utf8.width text.toList)

end JsonQuery.Grammar

namespace JsonQuery

def Query.parse (path : String) : Except QueryError Query :=
  (Grammar.readText Grammar.readQuery path).mapError (QueryError.ofRefusal path)

def Expression.parse (filter : String) : Except QueryError Expression :=
  let text := "[?(" ++ filter ++ ")]"
  (Grammar.readText Grammar.readFilter text).mapError (QueryError.ofRefusal text)

end JsonQuery
