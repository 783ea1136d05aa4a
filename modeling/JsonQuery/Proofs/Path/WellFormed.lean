import JsonQuery.Proofs.Path.Tokens
import JsonQuery.Proofs.Path.Parsing

/-!
The queries that some path spells. `Query.WellFormed` says which they are by the query alone, and
`Query.parse_wellFormed` that every accepted path spells one of them.
-/

namespace JsonQuery

/-- Positions and bounds are integers of 64 bits. -/
def InRange (position : Int) : Prop :=
  -0x8000000000000000 ≤ position ∧ position < 0x8000000000000000

/-- A text of digits, perhaps with a minus sign, a fraction and an exponent, and the double that
is read from it. -/
def SpellsDouble (text : List Char) (value : Double) : Prop :=
  (∃ decimal, Lexer.Numeral 'e' text decimal) ∧ Double.read? text = some value

def Segment.WellFormed : Segment → Prop
  | .key _ => True
  | .index position => InRange position

def Literal.WellFormed : Literal → Prop
  | .number value => ∃ text, SpellsDouble text value
  | _ => True

/-- The expressions that can be compared and given to functions. -/
inductive Expression.IsOperand : Expression → Prop
  | literal {value : Literal} (wellFormed : value.WellFormed) : IsOperand (.literal value)
  | reference {segments : List Segment}
      (wellFormed : ∀ segment ∈ segments, segment.WellFormed) : IsOperand (.reference segments)
  | call {name : String} {arguments : List Expression} (named : Lexer.IsIdentifier name)
      (operands : ∀ argument ∈ arguments, IsOperand argument) : IsOperand (.call name arguments)

/-- Comparisons have operands on both sides, and logical operators have any expressions. -/
inductive Expression.WellFormed : Expression → Prop
  | operand {value : Expression} (isOperand : value.IsOperand) : WellFormed value
  | comparison {operator : Operator} {left right : Expression}
      (compares : operator.isLogical = false) (leftOperand : left.IsOperand)
      (rightOperand : right.IsOperand) : WellFormed (.binary operator left right)
  | logical {operator : Operator} {left right : Expression}
      (joins : operator.isLogical = true) (leftWellFormed : WellFormed left)
      (rightWellFormed : WellFormed right) : WellFormed (.binary operator left right)
  | not {operand : Expression} (wellFormed : WellFormed operand) : WellFormed (.not operand)

def Predicate.WellFormed : Predicate → Prop
  | .index position => InRange position
  | .slice start stop => (∀ bound ∈ start, InRange bound) ∧ ∀ bound ∈ stop, InRange bound
  | .filter condition => condition.WellFormed

def Selector.WellFormed : Selector → Prop
  | .index position => InRange position
  | .slice start stop => (∀ bound ∈ start, InRange bound) ∧ ∀ bound ∈ stop, InRange bound
  | _ => True

/-- A parent step has no predicates, and a step that stays where it is begins with a filter. -/
structure Step.WellFormed (step : Step) : Prop where
  selector : step.selector.WellFormed
  predicates : ∀ predicate ∈ step.predicates, predicate.WellFormed
  parent : step.selector = .parent → step.predicates = []
  current : step.selector = .current →
    ∃ condition others, step.predicates = .filter condition :: others

def Query.WellFormed (query : Query) : Prop :=
  ∀ step ∈ query.steps, step.WellFormed

end JsonQuery

namespace JsonQuery.Grammar

open Lexer (Readable)

theorem inRange_of_readInteger? {text : List Char} {position : Int}
    (read : Digits.readInteger? text = some position) : InRange position := by
  unfold Digits.readInteger? at read
  dsimp only at read
  split at read
  all_goals
    rcases Option.bind_eq_some_iff.mp read with ⟨number, _, bounded⟩
    split at bounded
    next inside =>
      cases bounded
      exact inside
    next => cases bounded

/-- The numeral may have its exponent marked either way. -/
theorem spellsDouble_of_read {mark : Char} {text : List Char} {decimal : Decimal} {value : Double}
    (numeral : Lexer.Numeral mark text decimal) (read : Double.read? text = some value) :
    ∃ other, SpellsDouble other value := by
  rcases numeral.exists_mark with ⟨other, otherNumeral⟩
  refine ⟨other, ⟨decimal, otherNumeral⟩, ?_⟩
  rw [← read, numeral.readDouble?, otherNumeral.readDouble?]

theorem SegmentsText.wellFormed {text : List Lexeme} {segments : List Segment}
    (spelled : SegmentsText text segments) : ∀ segment ∈ segments, segment.WellFormed := by
  induction spelled with
  | nil => nofun
  | cons first _ induction =>
      refine List.forall_mem_cons.mpr ⟨?_, induction⟩
      cases first with
      | dotted => trivial
      | quoted => trivial
      | index isInteger => exact inRange_of_readInteger? isInteger

theorem OperandText.isOperand {text : List Lexeme} {value : Expression}
    (spelled : OperandText text value) : Readable text → value.IsOperand := by
  induction spelled with
  | @number text value isNumber =>
      intro readable
      rcases readable.numbers (List.mem_singleton.mpr rfl) with ⟨mark, decimal, numeral⟩
      exact .literal (spellsDouble_of_read numeral isNumber)
  | reference spelled => exact fun _ => .reference spelled.wellFormed
  | @call name arguments spelled induction =>
      intro readable
      refine .call (readable.calls (List.prefix_append [_, _] _).isInfix) ?_
      intro value isValue
      rcases List.mem_map.mp isValue with ⟨argument, isArgument, rfl⟩
      have inside : argument.1 <:+: separatedBy .comma (arguments.map Prod.fst) :=
        infix_separatedBy _ (List.mem_map_of_mem isArgument)
      have enclosed := List.infix_append [.name name, .openParenthesis]
        (separatedBy .comma (arguments.map Prod.fst)) [.closeParenthesis]
      exact induction argument isArgument (readable.of_infix (inside.trans enclosed))
  | _ => exact fun _ => .literal trivial

theorem isLogical_of_comparison {lexeme : Lexeme} {operator : Operator}
    (compares : comparison? lexeme = some operator) : operator.isLogical = false := by
  unfold comparison? at compares
  split at compares <;> cases compares <;> rfl

theorem ConditionText.wellFormed {level : Level} {text : List Lexeme} {value : Expression}
    (spelled : ConditionText level text value) : Readable text → value.WellFormed := by
  induction spelled with
  | operand spelled => exact fun readable => .operand (spelled.isOperand readable)
  | comparison leftSpelled compares rightSpelled =>
      intro readable
      exact .comparison (isLogical_of_comparison compares)
        (leftSpelled.isOperand readable.before) (rightSpelled.isOperand readable.after.tail)
  | not _ induction => exact fun readable => .not (induction readable.tail)
  | group _ induction =>
      intro readable
      exact induction (readable.of_infix (List.infix_append [_] _ [_]))
  | oneUnary _ induction => exact induction
  | oneConjunction _ induction => exact induction
  | and _ _ leftInduction rightInduction =>
      exact fun readable =>
        .logical rfl (leftInduction readable.before) (rightInduction readable.after.tail)
  | or _ _ leftInduction rightInduction =>
      exact fun readable =>
        .logical rfl (leftInduction readable.before) (rightInduction readable.after.tail)

/-- Brackets are well-formed if what they become is, a step or a predicate. -/
def Bracket.WellFormed : Bracket → Prop
  | .index position => InRange position
  | .slice start stop => (∀ bound ∈ start, InRange bound) ∧ ∀ bound ∈ stop, InRange bound
  | .filter condition => condition.WellFormed
  | .wildcard | .field _ => True

theorem BoundText.inRange {text : List Lexeme} {bound : Option Int}
    (spelled : BoundText text bound) : ∀ position ∈ bound, InRange position := by
  cases spelled with
  | none => nofun
  | some isInteger =>
      intro position same
      cases same
      exact inRange_of_readInteger? isInteger

theorem BracketText.wellFormed {text : List Lexeme} {bracket : Bracket}
    (spelled : BracketText text bracket) (readable : Readable text) : bracket.WellFormed := by
  cases spelled with
  | intro content =>
      cases content with
      | index spelled => exact spelled.inRange _ rfl
      | slice startSpelled stopSpelled => exact ⟨startSpelled.inRange, stopSpelled.inRange⟩
      | wildcard => trivial
      | field => trivial
      | @filter text _ spelled =>
          have enclosed := List.infix_append [.openBracket, .question, .openParenthesis]
            text [.closeParenthesis, .closeBracket]
          refine spelled.wellFormed (readable.of_infix ?_)
          simpa using enclosed

theorem BracketsText.wellFormed {text : List Lexeme} {brackets : List Bracket}
    (spelled : BracketsText text brackets) :
    Readable text → ∀ bracket ∈ brackets, bracket.WellFormed := by
  induction spelled with
  | nil => exact fun _ => nofun
  | cons first _ induction =>
      intro readable
      exact List.forall_mem_cons.mpr
        ⟨first.wellFormed readable.before, induction readable.after⟩

/-- A step that brackets can follow: any but the parent step. -/
def Extensible (step : Step) : Prop :=
  step.WellFormed ∧ step.selector ≠ .parent

theorem extensible_simple {selector : Selector} (wellFormed : selector.WellFormed)
    (notParent : selector ≠ .parent) (notCurrent : selector ≠ .current) :
    Extensible ⟨selector, []⟩ :=
  ⟨⟨wellFormed, nofun, fun _ => rfl, fun isCurrent => absurd isCurrent notCurrent⟩, notParent⟩

theorem extensible_toStep {bracket : Bracket} (wellFormed : bracket.WellFormed) :
    Extensible bracket.toStep := by
  cases bracket with
  | filter condition =>
      refine ⟨⟨trivial, ?_, nofun, fun _ => ⟨condition, [], rfl⟩⟩, nofun⟩
      exact List.forall_mem_singleton.mpr wellFormed
  | index => exact extensible_simple wellFormed nofun nofun
  | slice => exact extensible_simple wellFormed nofun nofun
  | wildcard => exact extensible_simple wellFormed nofun nofun
  | field => exact extensible_simple wellFormed nofun nofun

theorem Extensible.extend {step : Step} {predicate : Predicate} (extensible : Extensible step)
    (wellFormed : predicate.WellFormed) :
    Extensible { step with predicates := step.predicates ++ [predicate] } := by
  rcases extensible with ⟨isStep, notParent⟩
  refine ⟨⟨isStep.selector, ?_, fun isParent => absurd isParent notParent, ?_⟩, notParent⟩
  · exact List.forall_mem_append.mpr
      ⟨isStep.predicates, List.forall_mem_singleton.mpr wellFormed⟩
  · intro isCurrent
    rcases isStep.current isCurrent with ⟨condition, others, same⟩
    exact ⟨condition, others ++ [predicate], congrArg (· ++ [predicate]) same⟩

theorem attach_wellFormed {brackets : List Bracket}
    (wellFormed : ∀ bracket ∈ brackets, bracket.WellFormed) :
    ∀ {step : Step}, Extensible step → ∀ made ∈ attach step brackets, made.WellFormed := by
  induction brackets with
  | nil => exact fun extensible => List.forall_mem_singleton.mpr extensible.1
  | cons bracket brackets induction =>
      intro step extensible
      rcases List.forall_mem_cons.mp wellFormed with ⟨first, others⟩
      cases bracket with
      | index => exact induction others (extensible.extend first)
      | slice => exact induction others (extensible.extend first)
      | filter => exact induction others (extensible.extend first)
      | wildcard =>
          exact List.forall_mem_cons.mpr
            ⟨extensible.1, induction others (extensible_simple trivial nofun nofun)⟩
      | field =>
          exact List.forall_mem_cons.mpr
            ⟨extensible.1, induction others (extensible_simple trivial nofun nofun)⟩

theorem StepText.extensible {text : List Lexeme} {step : Step} (spelled : StepText text step)
    (readable : Readable text) : Extensible step := by
  cases spelled with
  | field => exact extensible_simple trivial nofun nofun
  | wildcard => exact extensible_simple trivial nofun nofun
  | recursive => exact extensible_simple trivial nofun nofun
  | bracket spelled => exact extensible_toStep (spelled.wellFormed readable)

theorem GroupText.wellFormed {text : List Lexeme} {steps : List Step}
    (group : GroupText text steps) (readable : Readable text) :
    ∀ step ∈ steps, step.WellFormed := by
  cases group with
  | intro first others =>
      exact attach_wellFormed (others.wellFormed readable.after) (first.extensible readable.before)

theorem parent_wellFormed : Step.WellFormed ⟨.parent, []⟩ :=
  ⟨trivial, nofun, fun _ => rfl, nofun⟩

theorem StepsText.wellFormed {text : List Lexeme} {steps : List Step}
    (spelled : StepsText text steps) : Readable text → ∀ step ∈ steps, step.WellFormed := by
  induction spelled with
  | none => exact fun _ => nofun
  | parent => exact fun _ => List.forall_mem_singleton.mpr parent_wellFormed
  | parentBefore _ induction =>
      intro readable
      exact List.forall_mem_cons.mpr
        ⟨parent_wellFormed, induction (readable.tail.tail)⟩
  | last group => exact group.wellFormed
  | separated group _ _ induction =>
      intro readable
      exact List.forall_mem_append.mpr
        ⟨group.wellFormed readable.before, induction readable.after.tail⟩
  | adjoined group _ _ induction =>
      intro readable
      exact List.forall_mem_append.mpr
        ⟨group.wellFormed readable.before, induction readable.after⟩

end JsonQuery.Grammar

namespace JsonQuery

theorem Query.wellFormed_of_parse {path : String} {query : Query}
    (accepted : Query.parse path = .ok query) : query.WellFormed := by
  rcases Query.parse_eq_ok_iff.mp accepted with ⟨text, cut, spelled⟩
  have readable := cut.readable
  cases spelled with
  | intro _ _ spelled => exact spelled.wellFormed readable.after.after

end JsonQuery
