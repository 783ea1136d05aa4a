import JsonQuery.Proofs.Path.WellFormed

/-!
Writing queries as paths. Every step stands behind a slash, names are quoted, and both sides of a
logical operator are in parentheses. `parse_corresponds` says that the paths that are
accepted and the well-formed queries correspond: an accepted path spells a well-formed query, and
each such query is what its own writing spells.

Doubles are written by a parameter, since many texts spell the same double.
-/

namespace JsonQuery

open Grammar (separatedBy)

/-! ## The writer -/

def Operator.lexeme : Operator → Lexeme
  | .or => .or
  | .and => .and
  | .equal => .equal
  | .notEqual => .notEqual
  | .less => .less
  | .lessOrEqual => .lessOrEqual
  | .greater => .greater
  | .greaterOrEqual => .greaterOrEqual

def Operator.write (operator : Operator) : List Char :=
  operator.lexeme.text.toList

def bracketed (content : List Char) : List Char :=
  '[' :: (content ++ [']'])

def parenthesized (content : List Char) : List Char :=
  '(' :: (content ++ [')'])

def writeBound : Option Int → List Char
  | none => []
  | some position => Digits.ofInt position

def Segment.write : Segment → List Char
  | .key name => bracketed (Lexer.quote name)
  | .index position => bracketed (Digits.ofInt position)

section Writer

variable (numeral : Double → List Char)

def Literal.write : Literal → List Char
  | .null => Lexeme.nullWord.text.toList
  | .bool true => Lexeme.trueWord.text.toList
  | .bool false => Lexeme.falseWord.text.toList
  | .number value => numeral value
  | .string text => Lexer.quote text

mutual

def Expression.write : Expression → List Char
  | .literal value => value.write numeral
  | .reference segments => '@' :: segments.flatMap Segment.write
  | .call name arguments => name.toList ++ parenthesized (separatedBy ',' (writeEach arguments))
  | .binary operator left right =>
    if operator.isLogical then
      parenthesized left.write ++ (operator.write ++ parenthesized right.write)
    else left.write ++ (operator.write ++ right.write)
  | .not operand => '!' :: parenthesized operand.write

def Expression.writeEach : List Expression → List (List Char)
  | [] => []
  | expression :: expressions => expression.write :: writeEach expressions

end

def Predicate.write : Predicate → List Char
  | .index position => bracketed (Digits.ofInt position)
  | .slice start stop => bracketed (writeBound start ++ ':' :: writeBound stop)
  | .filter condition => bracketed ('?' :: parenthesized (condition.write numeral))

def Selector.write : Selector → List Char
  | .field name => Lexer.quote name
  | .index position => bracketed (Digits.ofInt position)
  | .slice start stop => bracketed (writeBound start ++ ':' :: writeBound stop)
  | .wildcard => Lexeme.star.text.toList
  | .recursive name => ' ' :: (Lexeme.doubleSlash.text.toList ++ Lexer.quote name)
  | .parent => Lexeme.doubleDot.text.toList
  | .current => []

def Step.write (step : Step) : List Char :=
  step.selector.write ++ step.predicates.flatMap (Predicate.write numeral)

def Query.write (query : Query) : List Char :=
  query.steps.flatMap fun step => '/' :: step.write numeral

end Writer

/-- The bracket that a predicate is read from. -/
def Predicate.bracket : Predicate → Grammar.Bracket
  | .index position => .index position
  | .slice start stop => .slice start stop
  | .filter condition => .filter condition

/-- Every double that some text spells is written as such a text. -/
def WritesDoubles (numeral : Double → List Char) : Prop :=
  ∀ value, (∃ text, SpellsDouble text value) → SpellsDouble (numeral value) value

end JsonQuery

namespace JsonQuery.Lexer

/-! ## Texts and their lexemes -/

/-- The text is cut into the lexemes, on the way from one number of open brackets to another,
wherever the text behind it follows the rule. -/
def Splitting (follows : List Char → Prop) (start stop : Nat) (text : List Char)
    (lexemes : List Lexeme) : Prop :=
  ∀ rest, follows rest → Cuts stop rest start (text ++ rest) lexemes

/-- No rule about the text behind. -/
def Anything (_ : List Char) : Prop := True

/-- The text behind does not go on with this character. -/
def NotBefore (character : Char) (rest : List Char) : Prop :=
  rest.head? ≠ some character

namespace Splitting

variable {follows others : List Char → Prop} {start middle stop depth : Nat}
  {text rest : List Char} {first last lexemes : List Lexeme}

theorem empty : Splitting follows depth depth [] [] :=
  fun _ _ => .done

theorem append (before : Splitting follows start middle text first)
    (behind : Splitting others middle stop rest last)
    (allowed : ∀ after, others after → follows (rest ++ after)) :
    Splitting others start stop (text ++ rest) (first ++ last) := by
  intro after isAfter
  rw [List.append_assoc]
  exact (before _ (allowed after isAfter)).append (behind after isAfter)

theorem weaken (splitting : Splitting follows start stop text lexemes)
    (stronger : ∀ after, others after → follows after) :
    Splitting others start stop text lexemes :=
  fun after isAfter => splitting after (stronger after isAfter)

/-- A symbol is cut off as such wherever it stands first. -/
theorem symbol {source : List Char} {lexeme : Lexeme}
    (found : ∀ rest, follows rest → cutAt? start (source ++ rest) = some ⟨lexeme, source, rest⟩)
    (plain : ∀ rest, runsOn? ⟨lexeme, source, rest⟩ = none)
    (moves : depthAfter start lexeme = stop) : Splitting follows start stop source [lexeme] :=
  fun rest isRest => moves ▸ Cuts.cut (found rest isRest) (plain rest)

theorem openBracket (depth : Nat) :
    Splitting Anything depth (depth + 1) ['['] [.openBracket] := by
  refine symbol (fun _ _ => ?_) (fun _ => rfl) rfl
  cases depth <;> rfl

theorem closeBracket (depth : Nat) :
    Splitting Anything (depth + 1) depth [']'] [.closeBracket] :=
  symbol (fun _ _ => rfl) (fun _ => rfl) rfl

/-- What stands in brackets need only end where the closing bracket follows. -/
theorem bracketed (inside : Splitting follows (depth + 1) (depth + 1) text lexemes)
    (allowed : ∀ rest, follows (']' :: rest)) :
    Splitting Anything depth depth (JsonQuery.bracketed text)
      (.openBracket :: (lexemes ++ [.closeBracket])) := by
  have closed := inside.append (closeBracket depth) fun rest _ => allowed rest
  exact (openBracket depth).append closed fun _ _ => trivial

theorem parenthesized (inside : Splitting follows (depth + 1) (depth + 1) text lexemes)
    (allowed : ∀ rest, follows (')' :: rest)) :
    Splitting Anything (depth + 1) (depth + 1) (JsonQuery.parenthesized text)
      (.openParenthesis :: (lexemes ++ [.closeParenthesis])) := by
  have opened : Splitting Anything (depth + 1) (depth + 1) ['('] [.openParenthesis] :=
    symbol (fun _ _ => rfl) (fun _ => rfl) rfl
  have closing : Splitting Anything (depth + 1) (depth + 1) [')'] [.closeParenthesis] :=
    symbol (fun _ _ => rfl) (fun _ => rfl) rfl
  have closed := inside.append closing fun rest _ => allowed rest
  exact opened.append closed fun _ _ => trivial

theorem quoted (depth : Nat) (content : String) :
    Splitting Anything depth depth (quote content) [.quoted content] :=
  fun rest _ => Cuts.quoted depth content rest

theorem number {mark : Char} {decimal : Decimal} (depth : Nat)
    (numeral : Numeral mark text decimal) :
    Splitting Delimits (depth + 1) (depth + 1) text [.number (String.ofList text)] :=
  fun _ delimits => Cuts.number depth numeral delimits

theorem identifier {name : String} (depth : Nat) (isIdentifier : IsIdentifier name) :
    Splitting Delimits (depth + 1) (depth + 1) name.toList [.name name] :=
  fun _ delimits => Cuts.identifier depth isIdentifier delimits

theorem integer (depth : Nat) (position : Int) :
    Splitting Delimits (depth + 1) (depth + 1) (Digits.ofInt position)
      [.number (String.ofList (Digits.ofInt position))] := by
  rcases numeral_ofInt position with ⟨decimal, numeral⟩
  exact number depth numeral

theorem keyword (depth : Nat) {first : Char} {others : List Char} {lexeme : Lexeme}
    (starts : isIdentifierStart first = true)
    (parts : others.all isIdentifierPart = true)
    (isWord : word (String.ofList (first :: others)) = lexeme)
    (plain : ∀ rest, runsOn? ⟨lexeme, first :: others, rest⟩ = none)
    (stays : depthAfter (depth + 1) lexeme = depth + 1) :
    Splitting Delimits (depth + 1) (depth + 1) (first :: others) [lexeme] := by
  intro rest delimits
  have found := cutAt?_word depth starts (List.all_eq_true.mp parts) delimits.word
  rw [isWord] at found
  have cuts := Cuts.cut found (plain rest)
  rwa [stays] at cuts

/-- An operator goes on with nothing but an equals sign. -/
theorem operator (depth : Nat) (operator : Operator) :
    Splitting (NotBefore '=') (depth + 1) (depth + 1) operator.write [operator.lexeme] := by
  refine symbol ?_ ?_ ?_
  · intro rest notEqual
    cases rest with
    | nil => cases operator <;> rfl
    | cons next rest =>
        have different : next ≠ '=' := fun same => notEqual (congrArg some same)
        -- Only the two shorter signs could go on; the others are the longest of their kind.
        cases operator with
        | less | greater =>
            simp [cutAt?, filterCut?, symbol?, filterSymbols, Lexeme.text, Operator.write,
              Operator.lexeme, different.symm]
        | _ => rfl
  · intro rest
    cases operator <;> rfl
  · cases operator <;> rfl

end Splitting

theorem notBefore_cons {character first : Char} (different : first ≠ character)
    (rest : List Char) : NotBefore character (first :: rest) :=
  fun same => different (Option.some.inj same)

theorem delimits_closeBracket (rest : List Char) : Delimits (']' :: rest) :=
  delimits_cons (by decide) (by decide) rest

theorem delimits_operator (operator : Operator) (rest : List Char) :
    Delimits (operator.write ++ rest) := by
  cases operator <;> exact delimits_cons (by decide) (by decide) _

end JsonQuery.Lexer

namespace JsonQuery.Grammar

open Lexer (Splitting Anything NotBefore Delimits)

/-! ## What is written is spelled -/

theorem readInteger?_write {position : Int} (inRange : InRange position) :
    Digits.readInteger? (String.ofList (Digits.ofInt position)).toList = some position := by
  rw [String.toList_ofList]
  exact Lexer.readInteger?_ofInt inRange.1 inRange.2

theorem segment_written {segment : Segment} (wellFormed : segment.WellFormed) :
    ∃ text, SegmentText text segment ∧
      ∀ depth, Splitting Anything depth depth segment.write text := by
  cases segment with
  | key name =>
      exact ⟨_, .quoted name, fun depth => (Splitting.quoted _ name).bracketed fun _ => trivial⟩
  | index position =>
      exact ⟨_, .index (readInteger?_write wellFormed), fun depth =>
        (Splitting.integer depth position).bracketed Lexer.delimits_closeBracket⟩

theorem segments_written {segments : List Segment}
    (wellFormed : ∀ segment ∈ segments, segment.WellFormed) :
    ∃ text, SegmentsText text segments ∧
      ∀ depth, Splitting Anything depth depth (segments.flatMap Segment.write) text := by
  induction segments with
  | nil => exact ⟨[], .nil, fun _ => .empty⟩
  | cons segment segments induction =>
      rcases List.forall_mem_cons.mp wellFormed with ⟨first, others⟩
      rcases segment_written first with ⟨text, spelled, splitting⟩
      rcases induction others with ⟨othersText, othersSpelled, othersSplitting⟩
      refine ⟨_, .cons spelled othersSpelled, fun depth => ?_⟩
      exact (splitting depth).append (othersSplitting depth) fun _ _ => trivial

section Expressions

variable {numeral : Double → List Char}

/-- An operand that is written can be read: it is spelled by the lexemes that its text is cut
into, wherever something else stands behind it. -/
def OperandWritten (numeral : Double → List Char) (value : Expression) : Prop :=
  ∃ text, OperandText text value ∧
    ∀ depth, Splitting Delimits (depth + 1) (depth + 1) (value.write numeral) text

theorem literal_written (writes : WritesDoubles numeral) {value : Literal}
    (wellFormed : value.WellFormed) : OperandWritten numeral (.literal value) := by
  cases value with
  | null =>
      exact ⟨_, .null, fun depth =>
        .keyword depth (by decide) (by decide) rfl (fun _ => rfl) rfl⟩
  | bool value =>
      cases value with
      | true =>
          exact ⟨_, .true, fun depth =>
            .keyword depth (by decide) (by decide) rfl (fun _ => rfl) rfl⟩
      | false =>
          exact ⟨_, .false, fun depth =>
            .keyword depth (by decide) (by decide) rfl (fun _ => rfl) rfl⟩
  | number value =>
      rcases writes value wellFormed with ⟨⟨decimal, isNumeral⟩, read⟩
      refine ⟨_, .number ?_, fun depth => .number depth isNumeral⟩
      rw [String.toList_ofList]
      exact read
  | string content =>
      exact ⟨_, .string content, fun depth =>
        (Splitting.quoted _ content).weaken fun _ _ => trivial⟩

theorem delimits_arguments (texts : List (List Char)) {rest : List Char}
    (delimits : Delimits rest) : Delimits (texts.flatMap (',' :: ·) ++ rest) := by
  cases texts with
  | nil => exact delimits
  | cons text texts => exact Lexer.delimits_cons (by decide) (by decide) _

/-- Arguments behind the first one, each with its comma. -/
theorem moreArguments_written {arguments : List Expression}
    (written : ∀ argument ∈ arguments, OperandWritten numeral argument) :
    ∃ pairs : List (List Lexeme × Expression), pairs.map Prod.snd = arguments ∧
      (∀ pair ∈ pairs, OperandText pair.1 pair.2) ∧ ∀ depth,
        Splitting Delimits (depth + 1) (depth + 1)
          ((Expression.writeEach numeral arguments).flatMap (',' :: ·))
          ((pairs.map Prod.fst).flatMap (.comma :: ·)) := by
  induction arguments with
  | nil => exact ⟨[], rfl, nofun, fun _ => .empty⟩
  | cons argument arguments induction =>
      rcases List.forall_mem_cons.mp written with ⟨⟨text, spelled, splitting⟩, others⟩
      rcases induction others with ⟨pairs, rfl, each, splittings⟩
      refine ⟨(text, argument) :: pairs, rfl, List.forall_mem_cons.mpr ⟨spelled, each⟩, ?_⟩
      intro depth
      have comma : Splitting Anything (depth + 1) (depth + 1) [','] [.comma] :=
        .symbol (fun _ _ => rfl) (fun _ => rfl) rfl
      have operand := (splitting depth).append (splittings depth) fun _ =>
        delimits_arguments (Expression.writeEach numeral (pairs.map Prod.snd))
      exact comma.append operand fun _ _ => trivial

theorem arguments_written {arguments : List Expression}
    (written : ∀ argument ∈ arguments, OperandWritten numeral argument) :
    ∃ pairs : List (List Lexeme × Expression), pairs.map Prod.snd = arguments ∧
      (∀ pair ∈ pairs, OperandText pair.1 pair.2) ∧ ∀ depth,
        Splitting Delimits (depth + 1) (depth + 1)
          (separatedBy ',' (Expression.writeEach numeral arguments))
          (separatedBy .comma (pairs.map Prod.fst)) := by
  cases arguments with
  | nil => exact ⟨[], rfl, nofun, fun _ => .empty⟩
  | cons argument arguments =>
      rcases List.forall_mem_cons.mp written with ⟨⟨text, spelled, splitting⟩, others⟩
      rcases moreArguments_written others with ⟨pairs, rfl, each, splittings⟩
      refine ⟨(text, argument) :: pairs, rfl, List.forall_mem_cons.mpr ⟨spelled, each⟩, ?_⟩
      intro depth
      exact (splitting depth).append (splittings depth) fun _ =>
        delimits_arguments (Expression.writeEach numeral (pairs.map Prod.snd))

theorem delimits_parenthesis (rest : List Char) : Delimits (')' :: rest) :=
  Lexer.delimits_cons (by decide) (by decide) rest

theorem operand_written (writes : WritesDoubles numeral) {value : Expression}
    (isOperand : value.IsOperand) : OperandWritten numeral value := by
  induction isOperand with
  | literal wellFormed => exact literal_written writes wellFormed
  | reference wellFormed =>
      rcases segments_written wellFormed with ⟨text, spelled, splitting⟩
      refine ⟨_, .reference spelled, fun depth => ?_⟩
      have current : Splitting Anything (depth + 1) (depth + 1) ['@'] [.current] :=
        .symbol (fun _ _ => rfl) (fun _ => rfl) rfl
      exact (current.append (splitting _) fun _ _ => trivial).weaken fun _ _ => trivial
  | call named _ induction =>
      rcases arguments_written induction with ⟨pairs, rfl, each, splitting⟩
      refine ⟨_, .call pairs each, fun depth => ?_⟩
      have inside := (splitting depth).parenthesized delimits_parenthesis
      exact (((Splitting.identifier depth named).append inside fun _ _ =>
        Lexer.delimits_cons (by decide) (by decide) _).weaken fun _ _ => trivial)

/-- What an operand begins with does not make another sign of a comparison before it. -/
theorem operand_notBefore (writes : WritesDoubles numeral) {value : Expression}
    (isOperand : value.IsOperand) (rest : List Char) :
    NotBefore '=' (value.write numeral ++ rest) := by
  cases isOperand with
  | @literal value wellFormed =>
      cases value with
      | null => exact Lexer.notBefore_cons (by decide) _
      | bool value => cases value <;> exact Lexer.notBefore_cons (by decide) _
      | number value =>
          rcases writes value wellFormed with ⟨⟨decimal, isNumeral⟩, _⟩
          rcases isNumeral.head with ⟨first, others, same, begins⟩
          rw [Expression.write, Literal.write, same, List.cons_append]
          refine Lexer.notBefore_cons ?_ _
          rintro rfl
          revert begins
          decide
      | string content => exact Lexer.notBefore_cons (by decide) _
  | reference => exact Lexer.notBefore_cons (by decide) _
  | call named =>
      rcases named.spelled with ⟨first, others, same, starts, _⟩
      rw [Expression.write, same, List.cons_append, List.cons_append]
      refine Lexer.notBefore_cons ?_ _
      rintro rfl
      revert starts
      decide

/-- An expression that is written can be read, at the level at which it stands in parentheses. -/
def ConditionWritten (numeral : Double → List Char) (value : Expression) : Prop :=
  ∃ text, ConditionText .disjunction text value ∧
    ∀ depth, Splitting Delimits (depth + 1) (depth + 1) (value.write numeral) text

theorem comparison?_lexeme {operator : Operator} (compares : operator.isLogical = false) :
    comparison? operator.lexeme = some operator := by
  cases operator <;> first | rfl | cases compares

theorem ConditionText.ofUnary {text : List Lexeme} {value : Expression}
    (spelled : ConditionText .unary text value) : ConditionText .disjunction text value :=
  .oneConjunction (.oneUnary spelled)

/-- Two expressions in parentheses are joined at the level of the operator. -/
theorem logical_spelled {operator : Operator} {leftText rightText : List Lexeme}
    {left right : Expression} (joins : operator.isLogical = true)
    (leftSpelled : ConditionText .unary leftText left)
    (rightSpelled : ConditionText .unary rightText right) :
    ConditionText .disjunction (leftText ++ operator.lexeme :: rightText)
      (.binary operator left right) := by
  cases operator with
  | or => exact .or leftSpelled.ofUnary (.oneUnary rightSpelled)
  | and => exact .oneConjunction (.and (.oneUnary leftSpelled) rightSpelled)
  | _ => cases joins

theorem condition_written (writes : WritesDoubles numeral) {value : Expression}
    (wellFormed : value.WellFormed) : ConditionWritten numeral value := by
  induction wellFormed with
  | operand isOperand =>
      rcases operand_written writes isOperand with ⟨text, spelled, splitting⟩
      exact ⟨text, .ofUnary (.operand spelled), splitting⟩
  | @comparison operator left right compares leftOperand rightOperand =>
      rcases operand_written writes leftOperand with ⟨leftText, leftSpelled, leftSplitting⟩
      rcases operand_written writes rightOperand with ⟨rightText, rightSpelled, rightSplitting⟩
      refine ⟨_, .ofUnary (.comparison leftSpelled (comparison?_lexeme compares) rightSpelled), ?_⟩
      intro depth
      rw [Expression.write, if_neg (compares ▸ nofun)]
      have behind := (Splitting.operator depth operator).append (rightSplitting depth)
        fun rest _ => operand_notBefore writes rightOperand rest
      refine (leftSplitting depth).append behind fun rest _ => ?_
      rw [List.append_assoc]
      exact Lexer.delimits_operator operator _
  | @logical operator left right joins _ _ leftInduction rightInduction =>
      rcases leftInduction with ⟨leftText, leftSpelled, leftSplitting⟩
      rcases rightInduction with ⟨rightText, rightSpelled, rightSplitting⟩
      refine ⟨_, logical_spelled joins (.group leftSpelled) (.group rightSpelled), ?_⟩
      intro depth
      rw [Expression.write, if_pos joins]
      have leftGroup := (leftSplitting depth).parenthesized delimits_parenthesis
      have rightGroup := (rightSplitting depth).parenthesized delimits_parenthesis
      have behind := (Splitting.operator depth operator).append rightGroup
        fun rest _ => Lexer.notBefore_cons (by decide) _
      exact (leftGroup.append behind fun _ _ => trivial).weaken fun _ _ => trivial
  | not _ induction =>
      rcases induction with ⟨text, spelled, splitting⟩
      refine ⟨_, .ofUnary (.not (.group spelled)), ?_⟩
      intro depth
      have opens : Splitting (fun rest => ∃ others, rest = '(' :: others) (depth + 1) (depth + 1)
          ['!'] [.not] := by
        refine .symbol ?_ (fun _ => rfl) rfl
        rintro _ ⟨others, rfl⟩
        rfl
      have group := (splitting depth).parenthesized delimits_parenthesis
      exact (opens.append group fun _ _ => ⟨_, rfl⟩).weaken fun _ _ => trivial

end Expressions

section Steps

variable {numeral : Double → List Char}

/-- What is written in brackets is spelled by lexemes between brackets, outside all others. -/
def BracketWritten (written : List Char) (bracket : Bracket) : Prop :=
  ∃ text, BracketText text bracket ∧ Splitting Anything 0 0 written text

theorem bound_written {bound : Option Int} (inRange : ∀ position ∈ bound, InRange position) :
    ∃ text, BoundText text bound ∧
      ∀ depth, Splitting Delimits (depth + 1) (depth + 1) (writeBound bound) text := by
  cases bound with
  | none => exact ⟨[], .none, fun _ => .empty⟩
  | some position =>
      exact ⟨_, .some (readInteger?_write (inRange position rfl)), fun depth =>
        .integer depth position⟩

theorem index_written {position : Int} (inRange : InRange position) :
    BracketWritten (bracketed (Digits.ofInt position)) (.index position) :=
  ⟨_, .intro (.index (.some (readInteger?_write inRange))),
    (Splitting.integer 0 position).bracketed Lexer.delimits_closeBracket⟩

theorem slice_written {start stop : Option Int}
    (inRange : (∀ bound ∈ start, InRange bound) ∧ ∀ bound ∈ stop, InRange bound) :
    BracketWritten (bracketed (writeBound start ++ ':' :: writeBound stop))
      (.slice start stop) := by
  rcases bound_written inRange.1 with ⟨startText, startSpelled, startSplitting⟩
  rcases bound_written inRange.2 with ⟨stopText, stopSpelled, stopSplitting⟩
  refine ⟨_, .intro (.slice startSpelled stopSpelled), ?_⟩
  have colon : Splitting Anything 1 1 [':'] [.colon] :=
    .symbol (fun _ _ => rfl) (fun _ => rfl) rfl
  have behind := colon.append (stopSplitting 0) fun _ _ => trivial
  refine ((startSplitting 0).append behind fun rest _ => ?_).bracketed Lexer.delimits_closeBracket
  exact Lexer.delimits_cons (by decide) (by decide) _

theorem filter_written (writes : WritesDoubles numeral) {condition : Expression}
    (wellFormed : condition.WellFormed) :
    BracketWritten (bracketed ('?' :: parenthesized (condition.write numeral)))
      (.filter condition) := by
  rcases condition_written writes wellFormed with ⟨text, spelled, splitting⟩
  refine ⟨_, .intro (.filter spelled), ?_⟩
  have question : Splitting Anything 1 1 ['?'] [.question] :=
    .symbol (fun _ _ => rfl) (fun _ => rfl) rfl
  have group := (splitting 0).parenthesized delimits_parenthesis
  exact (question.append group fun _ _ => trivial).bracketed fun _ => trivial

theorem predicate_written (writes : WritesDoubles numeral) {predicate : Predicate}
    (wellFormed : predicate.WellFormed) :
    BracketWritten (predicate.write numeral) predicate.bracket := by
  cases predicate with
  | index position => exact index_written wellFormed
  | slice start stop => exact slice_written wellFormed
  | filter condition => exact filter_written writes wellFormed

theorem brackets_written {α : Type} {write : α → List Char} {bracket : α → Bracket}
    {items : List α} (written : ∀ item ∈ items, BracketWritten (write item) (bracket item)) :
    ∃ text, BracketsText text (items.map bracket) ∧
      Splitting Anything 0 0 (items.flatMap write) text := by
  induction items with
  | nil => exact ⟨[], .nil, .empty⟩
  | cons item items induction =>
      rcases List.forall_mem_cons.mp written with ⟨⟨text, spelled, splitting⟩, others⟩
      rcases induction others with ⟨othersText, othersSpelled, othersSplitting⟩
      exact ⟨_, .cons spelled othersSpelled, splitting.append othersSplitting fun _ _ => trivial⟩

theorem predicates_written (writes : WritesDoubles numeral) {predicates : List Predicate}
    (wellFormed : ∀ predicate ∈ predicates, predicate.WellFormed) :
    ∃ text, BracketsText text (predicates.map Predicate.bracket) ∧
      Splitting Anything 0 0 (predicates.flatMap (Predicate.write numeral)) text :=
  brackets_written fun predicate there => predicate_written writes (wellFormed predicate there)

theorem attach_predicates (predicates : List Predicate) : ∀ step : Step,
    attach step (predicates.map Predicate.bracket) =
      [{ step with predicates := step.predicates ++ predicates }] := by
  induction predicates with
  | nil =>
      intro step
      rw [List.append_nil]
      rfl
  | cons predicate predicates induction =>
      intro step
      have extended := induction { step with predicates := step.predicates ++ [predicate] }
      rw [List.append_assoc, List.singleton_append] at extended
      cases predicate <;> exact extended

/-- A step that names what it selects, as it stands without predicates. -/
theorem selector_written {selector : Selector} (wellFormed : selector.WellFormed)
    (notParent : selector ≠ .parent) (notCurrent : selector ≠ .current) :
    ∃ text, StepText text ⟨selector, []⟩ ∧ Splitting Anything 0 0 selector.write text := by
  cases selector with
  | field name => exact ⟨_, .field rfl, .quoted 0 name⟩
  | index position =>
      rcases index_written wellFormed with ⟨text, spelled, splitting⟩
      exact ⟨text, .bracket spelled, splitting⟩
  | slice start stop =>
      rcases slice_written wellFormed with ⟨text, spelled, splitting⟩
      exact ⟨text, .bracket spelled, splitting⟩
  | wildcard => exact ⟨_, .wildcard, .symbol (fun _ _ => rfl) (fun _ => rfl) rfl⟩
  | recursive name =>
      have spelled : StepText [.doubleSlash, .quoted name] ⟨.recursive name, []⟩ :=
        .recursive (.inl rfl) rfl
      refine ⟨_, spelled, ?_⟩
      have slashes : Splitting Anything 0 0 ['/', '/'] [.doubleSlash] :=
        .symbol (fun _ _ => rfl) (fun _ => rfl) rfl
      have named := slashes.append (.quoted 0 name) fun _ _ => trivial
      exact fun rest isRest => .blank (by decide) (named rest isRest)
  | parent => exact absurd rfl notParent
  | current => exact absurd rfl notCurrent

theorem group_written (writes : WritesDoubles numeral) {step : Step}
    (wellFormed : step.WellFormed) (notParent : step.selector ≠ .parent) :
    ∃ text, GroupText text [step] ∧ Splitting Anything 0 0 (step.write numeral) text := by
  rcases step with ⟨selector, predicates⟩
  by_cases isCurrent : selector = .current
  · rcases wellFormed.current isCurrent with ⟨condition, others, same⟩
    cases isCurrent
    cases same
    rcases List.forall_mem_cons.mp wellFormed.predicates with ⟨first, rest⟩
    rcases filter_written writes first with ⟨text, spelled, splitting⟩
    rcases predicates_written writes rest with ⟨othersText, othersSpelled, othersSplitting⟩
    have group := GroupText.intro (.bracket spelled) othersSpelled
    rw [attach_predicates] at group
    exact ⟨_, group, splitting.append othersSplitting fun _ _ => trivial⟩
  · rcases selector_written wellFormed.selector notParent isCurrent with
      ⟨text, spelled, splitting⟩
    rcases predicates_written writes wellFormed.predicates with
      ⟨othersText, othersSpelled, othersSplitting⟩
    have group := GroupText.intro spelled othersSpelled
    rw [attach_predicates] at group
    exact ⟨_, group, splitting.append othersSplitting fun _ _ => trivial⟩

/-- No step begins with a slash, so the one before it is a separator. -/
theorem step_notBefore {step : Step} (wellFormed : step.WellFormed) (rest : List Char) :
    NotBefore '/' (step.write numeral ++ rest) := by
  rcases step with ⟨selector, predicates⟩
  cases selector with
  | current =>
      rcases wellFormed.current rfl with ⟨condition, others, same⟩
      cases same
      exact Lexer.notBefore_cons (by decide) _
  | _ => exact Lexer.notBefore_cons (by decide) _

theorem slash_written : Splitting (NotBefore '/') 0 0 ['/'] [.slash] :=
  .symbol (fun _ single => Lexer.cutAt?_slash single) (fun _ => rfl) rfl

/-- A step behind a slash is spelled with its predicates, unless it is the parent step. -/
theorem step_written (writes : WritesDoubles numeral) {step : Step}
    (wellFormed : step.WellFormed) :
    ∃ text, Splitting Anything 0 0 ('/' :: step.write numeral) (.slash :: text) ∧
      (GroupText text [step] ∨ (text = [.doubleDot] ∧ step = ⟨.parent, []⟩)) := by
  by_cases isParent : step.selector = .parent
  · rcases step with ⟨selector, predicates⟩
    cases isParent
    cases wellFormed.parent rfl
    have dots : Splitting Anything 0 0 (Step.write numeral ⟨.parent, []⟩) [.doubleDot] :=
      .symbol (fun _ _ => rfl) (fun _ => rfl) rfl
    exact ⟨_, slash_written.append dots fun rest _ => step_notBefore wellFormed rest,
      .inr ⟨rfl, rfl⟩⟩
  · rcases group_written writes wellFormed isParent with ⟨text, group, splitting⟩
    exact ⟨text, slash_written.append splitting fun rest _ => step_notBefore wellFormed rest,
      .inl group⟩

/-- The first slash begins the path, and the others stand between steps. -/
theorem steps_written (writes : WritesDoubles numeral) (others : List Step) : ∀ first : Step,
    (∀ step ∈ first :: others, step.WellFormed) →
      ∃ text, StepsText text (first :: others) ∧
        Splitting Anything 0 0 ((first :: others).flatMap fun step => '/' :: step.write numeral)
          (.slash :: text) := by
  induction others with
  | nil =>
      intro first wellFormed
      rw [List.flatMap_singleton]
      rcases step_written writes (wellFormed first List.mem_cons_self) with
        ⟨text, splitting, group | ⟨rfl, rfl⟩⟩
      · exact ⟨text, .last group, splitting⟩
      · exact ⟨_, .parent, splitting⟩
  | cons second others induction =>
      intro first wellFormed
      rcases List.forall_mem_cons.mp wellFormed with ⟨isStep, othersWellFormed⟩
      rcases induction second othersWellFormed with ⟨othersText, othersSpelled, othersSplitting⟩
      rcases step_written writes isStep with ⟨text, splitting, group | ⟨rfl, rfl⟩⟩
      · exact ⟨_, .separated group (.inl rfl) othersSpelled,
          splitting.append othersSplitting fun _ _ => trivial⟩
      · exact ⟨_, .parentBefore othersSpelled,
          splitting.append othersSplitting fun _ _ => trivial⟩

theorem query_written (writes : WritesDoubles numeral) {query : Query}
    (wellFormed : query.WellFormed) :
    ∃ text, QueryText text query ∧ Lexer.PathLexemes (query.write numeral) text := by
  rcases query with ⟨steps⟩
  cases steps with
  | nil => exact ⟨[], .intro (.inl rfl) (.inl rfl) .none, .plain rfl .done⟩
  | cons first others =>
      rcases steps_written writes others first wellFormed with ⟨text, spelled, splitting⟩
      refine ⟨_, .intro (.inl rfl) (.inr (.inl rfl)) spelled, .plain rfl ?_⟩
      rw [← List.append_nil (Query.write numeral _)]
      exact splitting [] trivial

end Steps

end JsonQuery.Grammar

namespace JsonQuery

theorem exists_writesDoubles : ∃ numeral, WritesDoubles numeral := by
  classical
  refine ⟨fun value => if spelled : ∃ text, SpellsDouble text value then spelled.choose else [], ?_⟩
  intro value spelled
  dsimp only
  rw [dif_pos spelled]
  exact spelled.choose_spec

/-- Paths and well-formed queries correspond: what is accepted is well-formed, and a well-formed
query is what its own writing spells, however its doubles are written. -/
theorem parse_corresponds :
    (∀ path query, Query.parse path = .ok query → query.WellFormed) ∧
      ∀ numeral, WritesDoubles numeral → ∀ query : Query, query.WellFormed →
        Query.parse (String.ofList (query.write numeral)) = .ok query := by
  refine ⟨fun _ _ => Query.wellFormed_of_parse, ?_⟩
  intro numeral writes query wellFormed
  rcases Grammar.query_written writes wellFormed with ⟨text, spelled, cut⟩
  refine Query.parse_eq_ok_iff.mpr ⟨text, ?_, spelled⟩
  rwa [String.toList_ofList]

theorem parse_corresponds_nested :
    Query.parse "/ //\"b\\\"\"[?(!(len(@[\"c\"])))]/.." =
      .ok ⟨[⟨.recursive "b\"", [.filter (.not (.call "len" [.reference [.key "c"]]))]⟩,
        ⟨.parent, []⟩]⟩ := by
  rcases exists_writesDoubles with ⟨numeral, writes⟩
  have named : Lexer.IsIdentifier "len" :=
    ⟨⟨'l', ['e', 'n'], rfl, rfl, List.all_eq_true.mp rfl⟩, by decide⟩
  have operand : Expression.IsOperand (.call "len" [.reference [.key "c"]]) :=
    .call named (List.forall_mem_singleton.mpr
      (.reference (List.forall_mem_singleton.mpr trivial)))
  have descends : Step.WellFormed
      ⟨.recursive "b\"", [.filter (.not (.call "len" [.reference [.key "c"]]))]⟩ :=
    ⟨trivial, List.forall_mem_singleton.mpr (.not (.operand operand)), nofun, nofun⟩
  have accepted := parse_corresponds.2 numeral writes ⟨[_, ⟨.parent, []⟩]⟩
    (List.forall_mem_cons.mpr ⟨descends, List.forall_mem_singleton.mpr Grammar.parent_wellFormed⟩)
  exact (congrArg Query.parse (String.ofList_toList.symm.trans (congrArg String.ofList rfl))).trans
    accepted

end JsonQuery
