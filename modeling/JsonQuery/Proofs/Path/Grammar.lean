import JsonQuery.Path.Grammar

/-!
The grammar of paths and filters, stated over lexemes and without readers: which lexemes spell
which steps, brackets and expressions. It says nothing of positions and complaints, nor of what
must follow.
-/

namespace JsonQuery.Grammar

/-! ## Operands -/

inductive SegmentText : List Lexeme → Segment → Prop
  | dotted {lexeme : Lexeme} {name : String} (isName : lexeme.fieldName? = some name) :
      SegmentText [.dot, lexeme] (.key name)
  | quoted (name : String) :
      SegmentText [.openBracket, .quoted name, .closeBracket] (.key name)
  | index {text : String} {position : Int}
      (isInteger : Digits.readInteger? text.toList = some position) :
      SegmentText [.openBracket, .number text, .closeBracket] (.index position)

inductive SegmentsText : List Lexeme → List Segment → Prop
  | nil : SegmentsText [] []
  | cons {text rest : List Lexeme} {segment : Segment} {segments : List Segment}
      (first : SegmentText text segment) (others : SegmentsText rest segments) :
      SegmentsText (text ++ rest) (segment :: segments)

def separatedBy {α : Type} (separator : α) : List (List α) → List α
  | [] => []
  | text :: texts => text ++ texts.flatMap (separator :: ·)

inductive OperandText : List Lexeme → Expression → Prop
  | null : OperandText [.nullWord] (.literal .null)
  | true : OperandText [.trueWord] (.literal (.bool Bool.true))
  | false : OperandText [.falseWord] (.literal (.bool Bool.false))
  | string (content : String) : OperandText [.quoted content] (.literal (.string content))
  | number {text : String} {value : Double} (isNumber : Double.read? text.toList = some value) :
      OperandText [.number text] (.literal (.number value))
  | reference {text : List Lexeme} {segments : List Segment}
      (spelled : SegmentsText text segments) :
      OperandText (.current :: text) (.reference segments)
  | call {name : String} (arguments : List (List Lexeme × Expression))
      (spelled : ∀ argument ∈ arguments, OperandText argument.1 argument.2) :
      OperandText
        (.name name :: .openParenthesis ::
          (separatedBy .comma (arguments.map Prod.fst) ++ [.closeParenthesis]))
        (.call name (arguments.map Prod.snd))

/-! ## Filter expressions -/

/-- How tightly an expression binds, from the tightest. -/
inductive Level where
  | unary
  | conjunction
  | disjunction

inductive ConditionText : Level → List Lexeme → Expression → Prop
  | operand {text : List Lexeme} {value : Expression} (spelled : OperandText text value) :
      ConditionText .unary text value
  | comparison {leftText rightText : List Lexeme} {lexeme : Lexeme} {operator : Operator}
      {left right : Expression} (leftSpelled : OperandText leftText left)
      (compares : comparison? lexeme = some operator)
      (rightSpelled : OperandText rightText right) :
      ConditionText .unary (leftText ++ lexeme :: rightText) (.binary operator left right)
  | not {text : List Lexeme} {value : Expression} (spelled : ConditionText .unary text value) :
      ConditionText .unary (.not :: text) (.not value)
  | group {text : List Lexeme} {value : Expression}
      (spelled : ConditionText .disjunction text value) :
      ConditionText .unary (.openParenthesis :: (text ++ [.closeParenthesis])) value
  | oneUnary {text : List Lexeme} {value : Expression}
      (spelled : ConditionText .unary text value) : ConditionText .conjunction text value
  | and {leftText rightText : List Lexeme} {left right : Expression}
      (leftSpelled : ConditionText .conjunction leftText left)
      (rightSpelled : ConditionText .unary rightText right) :
      ConditionText .conjunction (leftText ++ .and :: rightText) (.binary .and left right)
  | oneConjunction {text : List Lexeme} {value : Expression}
      (spelled : ConditionText .conjunction text value) : ConditionText .disjunction text value
  | or {leftText rightText : List Lexeme} {left right : Expression}
      (leftSpelled : ConditionText .disjunction leftText left)
      (rightSpelled : ConditionText .conjunction rightText right) :
      ConditionText .disjunction (leftText ++ .or :: rightText) (.binary .or left right)

/-! ## Brackets -/

inductive BoundText : List Lexeme → Option Int → Prop
  | none : BoundText [] none
  | some {text : String} {position : Int}
      (isInteger : Digits.readInteger? text.toList = some position) :
      BoundText [.number text] (some position)

inductive ContentText : List Lexeme → Bracket → Prop
  | index {text : List Lexeme} {position : Int} (spelled : BoundText text (some position)) :
      ContentText text (.index position)
  | slice {startText stopText : List Lexeme} {start stop : Option Int}
      (startSpelled : BoundText startText start) (stopSpelled : BoundText stopText stop) :
      ContentText (startText ++ .colon :: stopText) (.slice start stop)
  | wildcard : ContentText [.star] .wildcard
  | field (name : String) : ContentText [.quoted name] (.field name)
  | filter {text : List Lexeme} {condition : Expression}
      (spelled : ConditionText .disjunction text condition) :
      ContentText (.question :: .openParenthesis :: (text ++ [.closeParenthesis]))
        (.filter condition)

inductive BracketText : List Lexeme → Bracket → Prop
  | intro {text : List Lexeme} {bracket : Bracket} (content : ContentText text bracket) :
      BracketText (.openBracket :: (text ++ [.closeBracket])) bracket

inductive BracketsText : List Lexeme → List Bracket → Prop
  | nil : BracketsText [] []
  | cons {text rest : List Lexeme} {bracket : Bracket} {brackets : List Bracket}
      (first : BracketText text bracket) (others : BracketsText rest brackets) :
      BracketsText (text ++ rest) (bracket :: brackets)

/-! ## Steps -/

inductive StepText : List Lexeme → Step → Prop
  | field {lexeme : Lexeme} {name : String} (isName : lexeme.fieldName? = some name) :
      StepText [lexeme] ⟨.field name, []⟩
  | wildcard : StepText [.star] ⟨.wildcard, []⟩
  | recursive {mark lexeme : Lexeme} {name : String}
      (isMark : mark = .doubleSlash ∨ mark = .doubleDot)
      (isName : lexeme.fieldName? = some name) :
      StepText [mark, lexeme] ⟨.recursive name, []⟩
  | bracket {text : List Lexeme} {bracket : Bracket} (spelled : BracketText text bracket) :
      StepText text bracket.toStep

/-- A step, the brackets after it and the steps that these begin. -/
inductive GroupText : List Lexeme → List Step → Prop
  | intro {text bracketsText : List Lexeme} {step : Step} {brackets : List Bracket}
      (first : StepText text step) (others : BracketsText bracketsText brackets) :
      GroupText (text ++ bracketsText) (attach step brackets)

/-- The steps up to the end of a path. A parent step stands before a slash or at the end, and a
descent needs no separator before it. -/
inductive StepsText : List Lexeme → List Step → Prop
  | none : StepsText [] []
  | parent : StepsText [.doubleDot] [⟨.parent, []⟩]
  | parentBefore {text : List Lexeme} {steps : List Step} (others : StepsText text steps) :
      StepsText (.doubleDot :: .slash :: text) (⟨.parent, []⟩ :: steps)
  | last {text : List Lexeme} {steps : List Step} (group : GroupText text steps) :
      StepsText text steps
  | separated {text rest : List Lexeme} {separator : Lexeme} {steps others : List Step}
      (group : GroupText text steps) (isSeparator : separator = .slash ∨ separator = .dot)
      (spelled : StepsText rest others) :
      StepsText (text ++ separator :: rest) (steps ++ others)
  | adjoined {text rest : List Lexeme} {steps others : List Step}
      (group : GroupText text steps)
      (descends : rest.head? = some .doubleSlash ∨ rest.head? = some .doubleDot)
      (spelled : StepsText rest others) :
      StepsText (text ++ rest) (steps ++ others)

inductive QueryText : List Lexeme → Query → Prop
  | intro {root separator text : List Lexeme} {steps : List Step}
      (isRoot : root = [] ∨ root = [.root])
      (isSeparator : separator = [] ∨ separator = [.slash] ∨ separator = [.dot])
      (spelled : StepsText text steps) : QueryText (root ++ (separator ++ text)) ⟨steps⟩

end JsonQuery.Grammar
