import JsonQuery.Proofs.Path.Grammar
import JsonQuery.Proofs.Path.Lexing

/-!
What the readers of filters accept, stated against the grammar: each takes lexemes of its kind
off the front, and it does so for all lexemes of its kind unless what follows goes on with them.
-/

namespace JsonQuery.Grammar

open Lexer (lexemes)

/-- Whatever the reader reads is spelled by the lexemes that it takes. -/
def Sound {α : Type} (reader : Reader α) (spells : List Lexeme → α → Prop) : Prop :=
  ∀ tokens value rest, reader tokens = .ok (value, rest) →
    ∃ taken, spells taken value ∧ lexemes tokens = taken ++ lexemes rest

/-- The next lexeme, if there is one, has the property. -/
def Followed (property : Lexeme → Prop) (tokens : List Token) : Prop :=
  ∀ token ∈ tokens.head?, property token.lexeme

theorem followed_cons {property : Lexeme → Prop} (token : Token) (rest : List Token)
    (holds : property token.lexeme) : Followed property (token :: rest) := by
  intro next head
  cases head
  exact holds

theorem Followed.imp {property other : Lexeme → Prop} {tokens : List Token}
    (followed : Followed property tokens)
    (weaker : ∀ lexeme, property lexeme → other lexeme) : Followed other tokens :=
  fun token head => weaker _ (followed token head)

theorem expect_eq_ok {lexeme : Lexeme} {wanted : Wanted} {tokens rest : List Token} :
    expect lexeme wanted tokens = .ok rest ↔
      ∃ token, token.lexeme = lexeme ∧ tokens = token :: rest := by
  cases tokens with
  | nil => exact ⟨nofun, nofun⟩
  | cons token others =>
      rw [expect]
      split
      next same =>
        constructor
        · intro read
          cases read
          exact ⟨token, same, rfl⟩
        · rintro ⟨_, _, split⟩
          cases split
          rfl
      next different =>
        constructor
        · nofun
        · rintro ⟨_, same, split⟩
          cases split
          exact absurd same different

theorem expect_lexemes {lexeme : Lexeme} {wanted : Wanted} {tokens rest : List Token}
    (read : expect lexeme wanted tokens = .ok rest) :
    lexemes tokens = lexeme :: lexemes rest := by
  rcases expect_eq_ok.mp read with ⟨token, rfl, rfl⟩
  rfl

theorem lexemes_eq_cons {tokens : List Token} {lexeme : Lexeme} {others : List Lexeme} :
    lexemes tokens = lexeme :: others ↔
      ∃ position rest, tokens = ⟨lexeme, position⟩ :: rest ∧ lexemes rest = others := by
  constructor
  · intro same
    rcases List.map_eq_cons_iff.mp same with ⟨⟨_, position⟩, rest, rfl, rfl, rfl⟩
    exact ⟨position, rest, rfl, rfl⟩
  · rintro ⟨_, _, rfl, rfl⟩
    rfl

theorem fieldName?_eq_some {lexeme : Lexeme} {name : String} :
    lexeme.fieldName? = some name ↔ lexeme = .name name ∨ lexeme = .quoted name := by
  cases lexeme <;> simp [Lexeme.fieldName?]

theorem integer_eq_ok {text : String} {tokens : List Token} {position : Int} :
    integer text tokens = .ok position ↔ Digits.readInteger? text.toList = some position := by
  unfold integer
  split
  next value read =>
    rw [read, Except.ok.injEq, Option.some.injEq]
  next unread =>
    rw [unread]
    exact ⟨nofun, nofun⟩

theorem readName_sound {wanted : Wanted} :
    Sound (readName wanted) fun taken name =>
      ∃ lexeme, lexeme.fieldName? = some name ∧ taken = [lexeme] := by
  intro tokens value rest read
  cases tokens with
  | nil => cases read
  | cons token others =>
      rw [readName] at read
      split at read
      next name isName =>
        cases read
        exact ⟨_, ⟨_, isName, rfl⟩, rfl⟩
      next => cases read

theorem readName_complete {wanted : Wanted} {token : Token} {name : String}
    (isName : token.lexeme.fieldName? = some name) (rest : List Token) :
    readName wanted (token :: rest) = .ok (name, rest) := by
  rw [readName, isName]

/-! ## References -/

/-- No segment begins with this lexeme. -/
def endsReference (lexeme : Lexeme) : Prop :=
  lexeme ≠ .dot ∧ lexeme ≠ .openBracket

/-- A segment before the others that a reader of segments takes. -/
theorem segment_before {tokens rest after : List Token} {text : List Lexeme} {segment : Segment}
    {value : List Segment} (first : SegmentText text segment)
    (taken : lexemes tokens = text ++ lexemes rest)
    (sound : ∀ segments after, readSegments rest = .ok (segments, after) →
      ∃ taken, SegmentsText taken segments ∧ lexemes rest = taken ++ lexemes after)
    (read : (do
      let (segments, rest) ← readSegments rest
      .ok (segment :: segments, rest)) = Except.ok (ε := Fault) (value, after)) :
    ∃ taken, SegmentsText taken value ∧ lexemes tokens = taken ++ lexemes after := by
  rcases bind_eq_ok.mp read with ⟨⟨segments, _⟩, others, same⟩
  cases same
  rcases sound _ _ others with ⟨othersText, spelled, split⟩
  refine ⟨_, .cons first spelled, ?_⟩
  rw [taken, split, List.append_assoc]

theorem readSegments_sound : Sound readSegments SegmentsText := by
  intro tokens
  fun_induction readSegments tokens with
  | case1 _ name _ rest induction =>
      exact fun _ _ => segment_before (.dotted rfl) rfl induction
  | case2 _ name _ rest induction =>
      exact fun _ _ => segment_before (.dotted rfl) rfl induction
  | case3 => nofun
  | case4 _ name _ _ rest induction =>
      exact fun _ _ => segment_before (.quoted name) rfl induction
  | case5 => nofun
  | case6 _ text _ _ rest induction =>
      intro value after read
      rcases bind_eq_ok.mp read with ⟨position, isInteger, others⟩
      exact segment_before (.index (integer_eq_ok.mp isInteger)) rfl induction others
  | case7 =>
      intro value after read
      rcases bind_eq_ok.mp read with ⟨_, _, unread⟩
      cases unread
  | case8 => nofun
  | case9 =>
      intro value after read
      cases read
      exact ⟨[], .nil, rfl⟩

theorem readSegments_stop {rest : List Token} (ends : Followed endsReference rest) :
    readSegments rest = .ok ([], rest) := by
  unfold readSegments
  split
  iterate 3 next => exact absurd rfl (ends _ rfl).1
  iterate 5 next => exact absurd rfl (ends _ rfl).2
  next => rfl

theorem readSegments_complete {text : List Lexeme} {segments : List Segment}
    (spelled : SegmentsText text segments) :
    ∀ {tokens rest : List Token}, lexemes tokens = text → Followed endsReference rest →
      readSegments (tokens ++ rest) = .ok (segments, rest) := by
  induction spelled with
  | nil =>
      intro tokens rest same ends
      rw [List.map_eq_nil_iff.mp same]
      exact readSegments_stop ends
  | cons first _ induction =>
      intro tokens rest same ends
      rcases List.map_eq_append_iff.mp same with ⟨front, back, rfl, frontText, backText⟩
      have others := induction backText ends
      rw [List.append_assoc]
      cases first with
      | dotted isName =>
          simp only [lexemes_eq_cons, List.map_eq_nil_iff] at frontText
          rcases frontText with ⟨_, _, rfl, _, _, rfl, rfl⟩
          rcases fieldName?_eq_some.mp isName with rfl | rfl <;>
            simp only [List.cons_append, List.nil_append, readSegments, others, ok_bind]
      | quoted name =>
          simp only [lexemes_eq_cons, List.map_eq_nil_iff] at frontText
          rcases frontText with ⟨_, _, rfl, _, _, rfl, _, _, rfl, rfl⟩
          simp only [List.cons_append, List.nil_append, readSegments, others, ok_bind]
      | index isInteger =>
          simp only [lexemes_eq_cons, List.map_eq_nil_iff] at frontText
          rcases frontText with ⟨_, _, rfl, _, _, rfl, _, _, rfl, rfl⟩
          simp only [List.cons_append, List.nil_append, readSegments, integer_eq_ok.mpr isInteger,
            others, ok_bind]

/-! ## Operands -/

/-- An operand is known by its first two lexemes. -/
theorem startsOperand_of_text {text : List Lexeme} {value : Expression}
    (spelled : OperandText text value) {tokens : List Token} (same : lexemes tokens = text)
    (rest : List Token) : startsOperand (tokens ++ rest) = true := by
  cases spelled <;> simp only [lexemes_eq_cons] at same
  case call =>
    rcases same with ⟨_, _, rfl, _, _, rfl, _⟩
    rfl
  all_goals
    rcases same with ⟨_, _, rfl, _⟩
    rfl

/-- What a reader of argument lists takes, given what spells an argument and how the texts of the
arguments make up the whole. -/
def Arguments (spells : List Lexeme → Expression → Prop)
    (join : List (List Lexeme) → List Lexeme) (taken : List Lexeme) (values : List Expression) :
    Prop :=
  ∃ arguments : List (List Lexeme × Expression),
    (∀ argument ∈ arguments, spells argument.1 argument.2) ∧
      taken = join (arguments.map Prod.fst) ∧ values = arguments.map Prod.snd

theorem readMoreArguments_sound {operand : Reader Expression}
    {spells : List Lexeme → Expression → Prop} (sound : Sound operand spells) (budget : Nat) :
    Sound (readMoreArguments operand budget)
      (Arguments spells fun texts => texts.flatMap (.comma :: ·)) := by
  induction budget with
  | zero =>
      intro tokens values rest read
      cases read
      exact ⟨[], ⟨[], nofun, rfl, rfl⟩, rfl⟩
  | succ budget induction =>
      intro tokens values rest read
      unfold readMoreArguments at read
      split at read
      next same =>
        cases same
        split at read
        next =>
          rcases bind_eq_ok.mp read with ⟨⟨first, _⟩, firstRead, read⟩
          rcases bind_eq_ok.mp read with ⟨⟨others, _⟩, othersRead, same⟩
          cases same
          rcases sound _ _ _ firstRead with ⟨firstText, spelled, firstSplit⟩
          rcases induction _ _ _ othersRead with ⟨_, ⟨arguments, each, rfl, rfl⟩, split⟩
          refine ⟨_, ⟨(firstText, first) :: arguments,
            List.forall_mem_cons.mpr ⟨spelled, each⟩, rfl, rfl⟩, ?_⟩
          simp only [List.map_cons, List.flatMap_cons, firstSplit, split, List.cons_append,
            List.append_assoc]
        next =>
          cases read
          exact ⟨[], ⟨[], nofun, rfl, rfl⟩, rfl⟩
      next =>
        cases read
        exact ⟨[], ⟨[], nofun, rfl, rfl⟩, rfl⟩

theorem readArguments_sound {operand : Reader Expression}
    {spells : List Lexeme → Expression → Prop} (sound : Sound operand spells) :
    Sound (readArguments operand)
      (Arguments spells fun texts => separatedBy .comma texts ++ [.closeParenthesis]) := by
  intro tokens values rest read
  unfold readArguments at read
  split at read
  next =>
    rcases bind_eq_ok.mp read with ⟨⟨first, _⟩, firstRead, read⟩
    rcases bind_eq_ok.mp read with ⟨⟨others, _⟩, othersRead, read⟩
    rcases bind_eq_ok.mp read with ⟨_, closed, same⟩
    cases same
    rcases sound _ _ _ firstRead with ⟨firstText, spelled, firstSplit⟩
    rcases readMoreArguments_sound sound _ _ _ _ othersRead with
      ⟨_, ⟨arguments, each, rfl, rfl⟩, split⟩
    refine ⟨_, ⟨(firstText, first) :: arguments,
      List.forall_mem_cons.mpr ⟨spelled, each⟩, rfl, rfl⟩, ?_⟩
    simp only [List.map_cons, separatedBy, firstSplit, split, expect_lexemes closed,
      List.append_assoc, List.cons_append, List.nil_append]
  next =>
    rcases bind_eq_ok.mp read with ⟨_, closed, same⟩
    cases same
    exact ⟨_, ⟨[], nofun, rfl, rfl⟩, expect_lexemes closed⟩

theorem readOperand_sound (nesting : Nat) : Sound (readOperand nesting) OperandText := by
  intro tokens value rest read
  unfold readOperand at read
  split at read
  next => cases read; exact ⟨_, .null, rfl⟩
  next => cases read; exact ⟨_, .true, rfl⟩
  next => cases read; exact ⟨_, .false, rfl⟩
  next => cases read; exact ⟨_, .string _, rfl⟩
  next text _ rest =>
    split at read
    next isNumber =>
      cases read
      exact ⟨_, .number isNumber, rfl⟩
    next => cases read
  next =>
    rcases bind_eq_ok.mp read with ⟨⟨segments, _⟩, segmentsRead, same⟩
    cases same
    rcases readSegments_sound _ _ _ segmentsRead with ⟨text, spelled, split⟩
    exact ⟨_, .reference spelled, congrArg (Lexeme.current :: ·) split⟩
  next nesting _ _ _ _ =>
    rcases bind_eq_ok.mp read with ⟨⟨values, _⟩, argumentsRead, same⟩
    cases same
    rcases readArguments_sound (readOperand_sound nesting) _ _ _ argumentsRead with
      ⟨_, ⟨arguments, each, rfl, rfl⟩, split⟩
    exact ⟨_, .call arguments each,
      congrArg (Lexeme.name _ :: Lexeme.openParenthesis :: ·) split⟩
  next => cases read
  next => cases read

/-- The reader reads the value off any tokens with these lexemes, where the lexeme after them has
the property. -/
def Reads {α : Type} (reader : Reader α) (property : Lexeme → Prop) (text : List Lexeme)
    (value : α) : Prop :=
  ∀ ⦃tokens rest : List Token⦄, lexemes tokens = text → Followed property rest →
    reader (tokens ++ rest) = .ok (value, rest)

theorem readMoreArguments_stop {operand : Reader Expression} (budget : Nat) {rest : List Token}
    (ends : Followed (· ≠ .comma) rest) :
    readMoreArguments operand budget rest = .ok ([], rest) := by
  unfold readMoreArguments
  split
  next => exact absurd rfl (ends _ rfl)
  next => rfl

/-- Each further argument begins with a comma, and no segment does. -/
theorem endsReference_before_arguments {texts : List (List Lexeme)} {tokens rest : List Token}
    (same : lexemes tokens = texts.flatMap (.comma :: ·))
    (closes : Followed (· = .closeParenthesis) rest) :
    Followed endsReference (tokens ++ rest) := by
  cases texts with
  | nil =>
      rw [List.map_eq_nil_iff.mp same]
      exact closes.imp fun _ => (· ▸ ⟨nofun, nofun⟩)
  | cons text texts =>
      rw [List.flatMap_cons, List.cons_append] at same
      rcases lexemes_eq_cons.mp same with ⟨_, _, rfl, _⟩
      exact followed_cons _ _ ⟨nofun, nofun⟩

theorem readMoreArguments_complete {operand : Reader Expression}
    (arguments : List (List Lexeme × Expression))
    (each : ∀ argument ∈ arguments, OperandText argument.1 argument.2 ∧
      Reads operand endsReference argument.1 argument.2) :
    ∀ {budget : Nat} {tokens rest : List Token},
      lexemes tokens = (arguments.map Prod.fst).flatMap (.comma :: ·) → tokens.length ≤ budget →
      Followed (· = .closeParenthesis) rest →
        readMoreArguments operand budget (tokens ++ rest) =
          .ok (arguments.map Prod.snd, rest) := by
  induction arguments with
  | nil =>
      intro budget tokens rest same _ closes
      rw [List.map_eq_nil_iff.mp same]
      exact readMoreArguments_stop budget (closes.imp fun _ => (· ▸ nofun))
  | cons first others induction =>
      intro budget tokens rest same enough closes
      rcases List.forall_mem_cons.mp each with ⟨⟨spelled, reads⟩, each⟩
      rw [List.map_cons, List.flatMap_cons, List.cons_append] at same
      rcases lexemes_eq_cons.mp same with ⟨position, tail, rfl, tailText⟩
      rcases List.map_eq_append_iff.mp tailText with ⟨front, back, rfl, frontText, backText⟩
      cases budget with
      | zero => cases enough
      | succ budget =>
          have shorter : back.length ≤ budget := by
            simp only [List.length_cons, List.length_append] at enough
            omega
          have ends := endsReference_before_arguments backText closes
          have starts := startsOperand_of_text spelled frontText (back ++ rest)
          simp only [List.cons_append, List.append_assoc, readMoreArguments, starts, if_true,
            reads frontText ends, ok_bind, induction each backText shorter closes, List.map_cons]

theorem readArguments_complete {operand : Reader Expression}
    {arguments : List (List Lexeme × Expression)}
    (each : ∀ argument ∈ arguments, OperandText argument.1 argument.2 ∧
      Reads operand endsReference argument.1 argument.2) {tokens : List Token}
    (same : lexemes tokens = separatedBy .comma (arguments.map Prod.fst) ++ [.closeParenthesis])
    (rest : List Token) :
    readArguments operand (tokens ++ rest) = .ok (arguments.map Prod.snd, rest) := by
  rcases List.map_eq_append_iff.mp same with ⟨inside, close, rfl, insideText, closeText⟩
  simp only [lexemes_eq_cons, List.map_eq_nil_iff] at closeText
  rcases closeText with ⟨position, _, rfl, rfl⟩
  rw [List.append_assoc, List.singleton_append]
  have closes : Followed (· = .closeParenthesis) (⟨.closeParenthesis, position⟩ :: rest) :=
    followed_cons _ rest rfl
  have closed : expect .closeParenthesis .argumentsEnd (⟨.closeParenthesis, position⟩ :: rest) =
      .ok rest := rfl
  cases arguments with
  | nil =>
      rw [List.map_eq_nil_iff.mp insideText]
      rfl
  | cons first others =>
      rcases List.forall_mem_cons.mp each with ⟨⟨spelled, reads⟩, each⟩
      rw [List.map_cons, separatedBy] at insideText
      rcases List.map_eq_append_iff.mp insideText with ⟨front, back, rfl, frontText, backText⟩
      have ends := endsReference_before_arguments backText closes
      have starts := startsOperand_of_text spelled frontText
        (back ++ ⟨.closeParenthesis, position⟩ :: rest)
      have enough : back.length ≤ (back ++ ⟨.closeParenthesis, position⟩ :: rest).length := by
        rw [List.length_append]
        exact Nat.le_add_right _ _
      have more := readMoreArguments_complete others each backText enough closes
      simp only [List.append_assoc, readArguments, starts, if_true, reads frontText ends, ok_bind,
        more, closed, List.map_cons]

theorem infix_separatedBy {α : Type} (separator : α) {text : List α} {texts : List (List α)}
    (isText : text ∈ texts) : text <:+: separatedBy separator texts := by
  cases texts with
  | nil => cases isText
  | cons first others =>
      rcases List.mem_cons.mp isText with rfl | isOther
      · exact (List.prefix_append _ _).isInfix
      · have inside : (separator :: text) <:+: others.flatMap (separator :: ·) :=
          List.infix_of_mem_flatten (List.mem_map_of_mem isOther)
        exact (List.suffix_cons _ _).isInfix.trans (inside.trans (List.suffix_append _ _).isInfix)

theorem readOperand_complete {text : List Lexeme} {value : Expression}
    (spelled : OperandText text value) : ∀ {nesting : Nat}, text.length ≤ nesting →
      Reads (readOperand nesting) endsReference text value := by
  induction spelled with
  | call arguments spelled induction =>
      intro nesting enough tokens rest same _
      cases nesting with
      | zero => cases enough
      | succ nesting =>
          simp only [lexemes_eq_cons] at same
          rcases same with ⟨_, _, rfl, _, inside, rfl, insideText⟩
          have each : ∀ argument ∈ arguments, OperandText argument.1 argument.2 ∧
              Reads (readOperand nesting) endsReference argument.1 argument.2 := by
            intro argument isArgument
            have isText := List.mem_map_of_mem (f := Prod.fst) isArgument
            have shorter := (infix_separatedBy Lexeme.comma isText).length_le
            simp only [List.length_cons, List.length_append] at enough
            exact ⟨spelled argument isArgument, induction argument isArgument (by omega)⟩
          simp only [List.cons_append, readOperand, readArguments_complete each insideText,
            ok_bind]
  | reference spelled =>
      intro nesting _ tokens rest same ends
      simp only [lexemes_eq_cons] at same
      rcases same with ⟨_, tail, rfl, tailText⟩
      simp only [List.cons_append, readOperand, readSegments_complete spelled tailText ends,
        ok_bind]
  | number isNumber =>
      intro nesting _ tokens rest same _
      simp only [lexemes_eq_cons, List.map_eq_nil_iff] at same
      rcases same with ⟨_, _, rfl, rfl⟩
      simp only [List.cons_append, List.nil_append, readOperand, isNumber]
  | _ =>
      intro nesting _ tokens rest same _
      simp only [lexemes_eq_cons, List.map_eq_nil_iff] at same
      rcases same with ⟨_, _, rfl, rfl⟩
      simp only [List.cons_append, List.nil_append, readOperand]

/-! ## Comparisons -/

/-- Neither a segment nor the right side of a comparison begins with this lexeme. -/
def endsUnary (lexeme : Lexeme) : Prop :=
  endsReference lexeme ∧ comparison? lexeme = none

theorem endsReference_of_comparison {lexeme : Lexeme} {operator : Operator}
    (compares : comparison? lexeme = some operator) : endsReference lexeme := by
  constructor <;> rintro rfl <;> cases compares

theorem readComparison_sound {operand : Reader Expression} (sound : Sound operand OperandText) :
    Sound (readComparison operand) (ConditionText .unary) := by
  intro tokens value rest read
  rcases bind_eq_ok.mp read with ⟨⟨left, afterLeft⟩, leftRead, read⟩
  rcases sound _ _ _ leftRead with ⟨leftText, leftSpelled, leftSplit⟩
  dsimp only at read
  split at read
  next token after =>
    split at read
    next operator compares =>
      rcases bind_eq_ok.mp read with ⟨⟨right, _⟩, rightRead, same⟩
      cases same
      rcases sound _ _ _ rightRead with ⟨rightText, rightSpelled, rightSplit⟩
      refine ⟨_, .comparison leftSpelled compares rightSpelled, ?_⟩
      simp only [leftSplit, List.map_cons, rightSplit, List.append_assoc, List.cons_append]
    next =>
      cases read
      exact ⟨_, .operand leftSpelled, leftSplit⟩
  next =>
    cases read
    exact ⟨_, .operand leftSpelled, leftSplit⟩

theorem readComparison_operand {operand : Reader Expression} {text : List Lexeme}
    {value : Expression} (reads : Reads operand endsReference text value) :
    Reads (readComparison operand) endsUnary text value := by
  intro tokens rest same ends
  have first := reads same (ends.imp fun _ => And.left)
  cases rest with
  | nil => simp only [readComparison, first, ok_bind]
  | cons token rest =>
      have notComparison : comparison? token.lexeme = none := (ends token rfl).2
      simp only [readComparison, first, ok_bind, notComparison]

theorem readComparison_complete {operand : Reader Expression} {leftText rightText : List Lexeme}
    {left right : Expression} {lexeme : Lexeme} {operator : Operator}
    (leftReads : Reads operand endsReference leftText left)
    (compares : comparison? lexeme = some operator)
    (rightReads : Reads operand endsReference rightText right) :
    Reads (readComparison operand) endsUnary (leftText ++ lexeme :: rightText)
      (.binary operator left right) := by
  intro tokens rest same ends
  rcases List.map_eq_append_iff.mp same with ⟨front, back, rfl, frontText, backText⟩
  rcases lexemes_eq_cons.mp backText with ⟨position, tail, rfl, tailText⟩
  have first := leftReads frontText
    (followed_cons ⟨lexeme, position⟩ (tail ++ rest)
      (endsReference_of_comparison compares))
  have second := rightReads tailText (ends.imp fun _ => And.left)
  simp only [List.append_assoc, List.cons_append, readComparison, first, ok_bind, compares, second]

/-! ## Chains -/

theorem readJoined_sound {item : Reader Expression} {spells chain : List Lexeme → Expression → Prop}
    {joint : Lexeme} {operator : Operator} (sound : Sound item spells)
    (join : ∀ {leftText rightText left right}, chain leftText left → spells rightText right →
      chain (leftText ++ joint :: rightText) (.binary operator left right)) :
    ∀ {budget : Nat} {left value : Expression} {leftText : List Lexeme} {tokens rest : List Token},
      chain leftText left → readJoined item joint operator budget left tokens = .ok (value, rest) →
        ∃ taken, chain (leftText ++ taken) value ∧ lexemes tokens = taken ++ lexemes rest := by
  intro budget
  induction budget with
  | zero =>
      intro left value leftText tokens rest spelled read
      cases read
      exact ⟨[], by rwa [List.append_nil], rfl⟩
  | succ budget induction =>
      intro left value leftText tokens rest spelled read
      cases tokens with
      | nil =>
          cases read
          exact ⟨[], by rwa [List.append_nil], rfl⟩
      | cons token tokens =>
          rw [readJoined] at read
          split at read
          next isJoint =>
            rcases bind_eq_ok.mp read with ⟨⟨right, _⟩, rightRead, read⟩
            rcases sound _ _ _ rightRead with ⟨rightText, rightSpelled, rightSplit⟩
            rcases induction (join spelled rightSpelled) read with ⟨taken, spelled, split⟩
            refine ⟨joint :: rightText ++ taken, ?_, ?_⟩
            · rwa [← List.append_assoc]
            · simp only [List.map_cons, isJoint, rightSplit, split, List.append_assoc,
                List.cons_append]
          next =>
            cases read
            exact ⟨[], by rwa [List.append_nil], rfl⟩

theorem readChain_sound {item : Reader Expression} {spells chain : List Lexeme → Expression → Prop}
    {joint : Lexeme} {operator : Operator} (sound : Sound item spells)
    (one : ∀ {text value}, spells text value → chain text value)
    (join : ∀ {leftText rightText left right}, chain leftText left → spells rightText right →
      chain (leftText ++ joint :: rightText) (.binary operator left right)) :
    Sound (readChain item joint operator) chain := by
  intro tokens value rest read
  rcases bind_eq_ok.mp read with ⟨⟨left, afterLeft⟩, leftRead, read⟩
  rcases sound _ _ _ leftRead with ⟨leftText, leftSpelled, leftSplit⟩
  rcases readJoined_sound sound join (one leftSpelled) read with ⟨taken, spelled, split⟩
  refine ⟨_, spelled, ?_⟩
  rw [leftSplit, split, List.append_assoc]

/-- A chain up to some joint or its end: reading it leaves the value so far on the left and a
budget for what follows. -/
def Joins (item : Reader Expression) (joint : Lexeme) (operator : Operator)
    (property : Lexeme → Prop) (text : List Lexeme) (value : Expression) : Prop :=
  ∀ ⦃tokens rest : List Token⦄, lexemes tokens = text → Followed property rest →
    ∃ budget, rest.length ≤ budget ∧ readChain item joint operator (tokens ++ rest) =
      readJoined item joint operator budget value rest

section Chains

variable {item : Reader Expression} {joint : Lexeme} {operator : Operator}
  {property : Lexeme → Prop}

theorem Reads.joins {text : List Lexeme} {value : Expression}
    (reads : Reads item property text value) : Joins item joint operator property text value := by
  intro tokens rest same ends
  refine ⟨rest.length, Nat.le_refl _, ?_⟩
  rw [readChain, reads same ends, ok_bind]

theorem Joins.join {leftText rightText : List Lexeme} {left right : Expression}
    (leftJoins : Joins item joint operator property leftText left) (isEnd : property joint)
    (rightReads : Reads item property rightText right) :
    Joins item joint operator property (leftText ++ joint :: rightText)
      (.binary operator left right) := by
  intro tokens rest same ends
  rcases List.map_eq_append_iff.mp same with ⟨front, back, rfl, frontText, backText⟩
  rcases lexemes_eq_cons.mp backText with ⟨position, tail, rfl, tailText⟩
  rcases leftJoins frontText (followed_cons ⟨joint, position⟩ (tail ++ rest) isEnd) with
    ⟨budget, enough, read⟩
  cases budget with
  | zero => cases enough
  | succ budget =>
      refine ⟨budget, ?_, ?_⟩
      · simp only [List.length_cons, List.length_append] at enough
        omega
      · rw [List.append_assoc, List.cons_append, read, readJoined, if_pos rfl,
          rightReads tailText ends, ok_bind]

theorem Joins.reads {text : List Lexeme} {value : Expression}
    (joins : Joins item joint operator property text value) :
    Reads (readChain item joint operator) (fun lexeme => property lexeme ∧ lexeme ≠ joint) text
      value := by
  intro tokens rest same ends
  rcases joins same (ends.imp fun _ => And.left) with ⟨budget, _, read⟩
  rw [read]
  cases budget with
  | zero => rfl
  | succ budget =>
      cases rest with
      | nil => rfl
      | cons token rest => rw [readJoined, if_neg (ends token rfl).2]

end Chains

/-! ## Expressions -/

theorem readUnary_sound {inner operand : Reader Expression}
    (innerSound : Sound inner (ConditionText .disjunction))
    (operandSound : Sound operand OperandText) :
    Sound (readUnary inner operand) (ConditionText .unary) := by
  intro tokens
  fun_induction readUnary inner operand tokens with
  | case1 _ rest induction =>
      intro value after read
      rcases bind_eq_ok.mp read with ⟨⟨negated, _⟩, negatedRead, same⟩
      cases same
      rcases induction _ _ negatedRead with ⟨text, spelled, split⟩
      exact ⟨_, .not spelled, congrArg (Lexeme.not :: ·) split⟩
  | case2 _ rest =>
      intro value after read
      rcases bind_eq_ok.mp read with ⟨⟨grouped, _⟩, groupedRead, read⟩
      rcases bind_eq_ok.mp read with ⟨_, closed, same⟩
      cases same
      rcases innerSound _ _ _ groupedRead with ⟨text, spelled, split⟩
      refine ⟨_, .group spelled, ?_⟩
      simp only [List.map_cons, split, expect_lexemes closed, List.cons_append, List.append_assoc,
        List.nil_append]
  | case3 tokens =>
      exact readComparison_sound operandSound tokens

/-- The reader of the items of a conjunction, inside `nesting` more parentheses at most. -/
def unaryReader (nesting : Nat) : Reader Expression :=
  readUnary (readExpression nesting) (readOperand (nesting + 1))

/-- The reader of the items of a disjunction. -/
def conjunctionReader (nesting : Nat) : Reader Expression :=
  readChain (unaryReader nesting) .and .and

theorem readExpression_succ (nesting : Nat) :
    readExpression (nesting + 1) = readChain (conjunctionReader nesting) .or .or := rfl

theorem readExpression_sound (nesting : Nat) :
    Sound (readExpression nesting) (ConditionText .disjunction) := by
  induction nesting with
  | zero => nofun
  | succ nesting induction =>
      have unarySound : Sound (unaryReader nesting) (ConditionText .unary) :=
        readUnary_sound induction (readOperand_sound _)
      have conjunctionSound : Sound (conjunctionReader nesting) (ConditionText .conjunction) :=
        readChain_sound unarySound .oneUnary .and
      exact readChain_sound conjunctionSound .oneConjunction .or

theorem readCondition_sound : Sound readCondition (ConditionText .disjunction) :=
  fun tokens => readExpression_sound (tokens.length + 1) tokens

/-- Neither a unary expression nor a conjunction goes on with this lexeme. -/
def endsConjunction (lexeme : Lexeme) : Prop :=
  endsUnary lexeme ∧ lexeme ≠ .and

def endsDisjunction (lexeme : Lexeme) : Prop :=
  endsConjunction lexeme ∧ lexeme ≠ .or

theorem endsDisjunction_close : endsDisjunction .closeParenthesis :=
  ⟨⟨⟨⟨nofun, nofun⟩, rfl⟩, nofun⟩, nofun⟩

theorem readUnary_operand {inner operand : Reader Expression} {tokens : List Token}
    (starts : startsOperand tokens = true) :
    readUnary inner operand tokens = readComparison operand tokens := by
  unfold readUnary
  split
  next => cases starts
  next => cases starts
  next => rfl

/-- What the readers of an expression of each level do with its text. -/
def Completes (nesting : Nat) : Level → List Lexeme → Expression → Prop
  | .unary => Reads (unaryReader nesting) endsUnary
  | .conjunction => Joins (unaryReader nesting) .and .and endsUnary
  | .disjunction => Joins (conjunctionReader nesting) .or .or endsConjunction

theorem readExpression_complete {level : Level} {text : List Lexeme} {value : Expression}
    (spelled : ConditionText level text value) :
    ∀ (nesting : Nat), text.length ≤ nesting → Completes nesting level text value := by
  induction spelled with
  | @operand text value spelled =>
      intro nesting enough tokens rest same ends
      have reads : Reads (readOperand (nesting + 1)) endsReference text value :=
        readOperand_complete spelled (Nat.le_succ_of_le enough)
      rw [unaryReader, readUnary_operand (startsOperand_of_text spelled same rest)]
      exact readComparison_operand reads same ends
  | @comparison leftText rightText _ _ left right leftSpelled compares rightSpelled =>
      intro nesting enough tokens rest same ends
      simp only [List.length_append, List.length_cons] at enough
      have leftReads : Reads (readOperand (nesting + 1)) endsReference leftText left :=
        readOperand_complete leftSpelled (by omega)
      have rightReads : Reads (readOperand (nesting + 1)) endsReference rightText right :=
        readOperand_complete rightSpelled (by omega)
      rcases List.map_eq_append_iff.mp same with ⟨front, back, rfl, frontText, _⟩
      have starts := startsOperand_of_text leftSpelled frontText (back ++ rest)
      rw [← List.append_assoc] at starts
      rw [unaryReader, readUnary_operand starts]
      exact readComparison_complete leftReads compares rightReads same ends
  | not _ induction =>
      intro nesting enough tokens rest same ends
      rcases lexemes_eq_cons.mp same with ⟨_, tail, rfl, tailText⟩
      have negated := induction _ (Nat.le_of_succ_le enough) tailText ends
      rw [unaryReader] at negated ⊢
      rw [List.cons_append, readUnary, negated, ok_bind]
  | @group text _ _ induction =>
      intro nesting enough tokens rest same _
      rcases lexemes_eq_cons.mp same with ⟨_, tail, rfl, tailText⟩
      rcases List.map_eq_append_iff.mp tailText with ⟨inside, close, rfl, insideText, closeText⟩
      simp only [lexemes_eq_cons, List.map_eq_nil_iff] at closeText
      rcases closeText with ⟨position, _, rfl, rfl⟩
      -- Only a group takes from the nesting, and its two parentheses pay for that.
      cases nesting with
      | zero => cases enough
      | succ nesting =>
          have shorter : text.length ≤ nesting := by
            simp only [List.length_cons, List.length_append] at enough
            omega
          have joins : Joins _ _ _ _ _ _ := induction _ shorter
          have grouped := joins.reads insideText
            (followed_cons ⟨.closeParenthesis, position⟩ rest endsDisjunction_close)
          rw [← readExpression_succ] at grouped
          rw [unaryReader, List.cons_append, List.append_assoc, List.singleton_append, readUnary,
            grouped, ok_bind]
          rfl
  | oneUnary _ induction =>
      intro nesting enough
      have reads : Reads _ _ _ _ := induction _ enough
      exact reads.joins
  | and _ _ leftInduction rightInduction =>
      intro nesting enough
      simp only [List.length_append, List.length_cons] at enough
      have leftJoins : Joins _ _ _ _ _ _ := leftInduction nesting (by omega)
      have rightReads : Reads _ _ _ _ := rightInduction nesting (by omega)
      exact leftJoins.join ⟨⟨nofun, nofun⟩, rfl⟩ rightReads
  | oneConjunction _ induction =>
      intro nesting enough
      have conjunction : Joins _ _ _ _ _ _ := induction _ enough
      exact conjunction.reads.joins
  | or _ _ leftInduction rightInduction =>
      intro nesting enough
      simp only [List.length_append, List.length_cons] at enough
      have leftJoins : Joins _ _ _ _ _ _ := leftInduction nesting (by omega)
      have rightJoins : Joins _ _ _ _ _ _ := rightInduction nesting (by omega)
      exact leftJoins.join ⟨⟨⟨nofun, nofun⟩, rfl⟩, nofun⟩ rightJoins.reads

theorem readCondition_complete {text : List Lexeme} {condition : Expression}
    (spelled : ConditionText .disjunction text condition) :
    Reads readCondition endsDisjunction text condition := by
  intro tokens rest same ends
  have enough : text.length ≤ (tokens ++ rest).length := by
    rw [← same, List.length_map, List.length_append]
    exact Nat.le_add_right _ _
  have joins : Joins _ _ _ _ _ _ := readExpression_complete spelled _ enough
  exact joins.reads same ends

end JsonQuery.Grammar
