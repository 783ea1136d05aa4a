import JsonQuery.Proofs.Path.Layout
import JsonQuery.Proofs.Path.Parsing

/-!
Filters that stand alone. A filter is read inside brackets that are put around its text, so what it
holds could close them early. `filter_parsers_agree` says that no filter does: it is accepted
exactly if the text in brackets is a path of one step that this filter alone refines.
-/

namespace JsonQuery.Lexer

/-! ## The brackets around a filter -/

theorem wrapped_toList (filter : String) : ("[?(" ++ filter ++ ")]").toList =
    '[' :: '?' :: '(' :: (filter.toList ++ [')', ']']) := by
  simp

theorem Cuts.of_cut {stop depth : Nat} {text source rest : List Char} {lexeme : Lexeme}
    {lexemes : List Lexeme} (cuts : Cuts stop [] depth text lexemes)
    (isCut : cutAt? depth text = some ⟨lexeme, source, rest⟩) :
    ∃ others, lexemes = lexeme :: others ∧ Cuts stop [] (depthAfter depth lexeme) rest others := by
  cases cuts with
  | done =>
      have splits := cutAt?_splits isCut
      exact absurd (List.append_eq_nil_iff.mp splits.split.symm).1 splits.takes
  | blank isBlank =>
      rw [cutAt?_blank isBlank] at isCut
      cases isCut
  | token found _ others =>
      obtain rfl := Option.some.inj (found.symm.trans isCut)
      exact ⟨_, rfl, others⟩

theorem PathLexemes.wrapped {filter : String} {cut : List Lexeme}
    (spelled : PathLexemes ("[?(" ++ filter ++ ")]").toList cut) :
    ∃ others, cut = .openBracket :: .question :: .openParenthesis :: others ∧
      Cuts 0 [] 1 (filter.toList ++ [')', ']']) others := by
  rw [wrapped_toList] at spelled
  cases spelled with
  | root marked => cases marked
  | plain _ cuts =>
      have opening : cutAt? 0 ('[' :: '?' :: '(' :: (filter.toList ++ [')', ']'])) =
          some ⟨.openBracket, ['['], '?' :: '(' :: (filter.toList ++ [')', ']'])⟩ := rfl
      have question : cutAt? 1 ('?' :: '(' :: (filter.toList ++ [')', ']'])) =
          some ⟨.question, ['?'], '(' :: (filter.toList ++ [')', ']'])⟩ := rfl
      have parenthesis : cutAt? 1 ('(' :: (filter.toList ++ [')', ']'])) =
          some ⟨.openParenthesis, ['('], filter.toList ++ [')', ']']⟩ := rfl
      obtain ⟨_, rfl, afterBracket⟩ := cuts.of_cut opening
      obtain ⟨_, rfl, afterQuestion⟩ := afterBracket.of_cut question
      obtain ⟨others, rfl, inside⟩ := afterQuestion.of_cut parenthesis
      exact ⟨others, rfl, inside⟩

theorem Numeral.last {mark : Char} {source : List Char} {decimal : Decimal}
    (numeral : Numeral mark source decimal) :
    ∃ front digits, source = front ++ digits ∧ Json.DigitText digits := by
  cases numeral with
  | @intro sign whole fractionText exponentText _ _ _ _ isWhole hasFraction hasExponent =>
      cases hasExponent with
      | @some mark sign' _ _ _ _ isDigits =>
          refine ⟨sign ++ (whole ++ (fractionText ++ mark :: sign')), _, ?_, isDigits⟩
          simp only [List.append_assoc, List.cons_append]
      | none =>
          cases hasFraction with
          | some isDigits =>
              refine ⟨sign ++ (whole ++ ['.']), _, ?_, isDigits⟩
              simp only [List.append_assoc, List.append_nil, List.cons_append, List.nil_append]
          | none => exact ⟨sign, whole, by rw [List.append_nil, List.append_nil], isWhole⟩

theorem TokenText.closeBracket {depth : Nat} {next : Option Char} {lexeme : Lexeme}
    {source : List Char} (spelled : TokenText depth next lexeme source)
    (last : source.getLast? = some ']') : lexeme = .closeBracket := by
  have member := List.mem_of_getLast? last
  cases spelled with
  | symbol isSymbol =>
      have apart : ∀ symbol ∈ symbolsAt depth,
          symbol = .closeBracket ∨ symbol.text.toList.getLast? ≠ some ']' := by
        rcases symbolsAt_eq depth with same | same <;> rw [same] <;> decide
      exact (apart lexeme isSymbol).resolve_right (absurd last)
  | quoted isQuote =>
      rw [← List.cons_append, List.getLast?_concat] at last
      obtain rfl := Option.some.inj last
      exact absurd isQuote (by decide)
  | name _ _ plain => exact absurd (plain _ member) (by decide)
  | number _ numeral =>
      obtain ⟨front, digits, rfl, isText, areDigits⟩ := numeral.last
      rw [List.getLast?_append_of_ne_nil _ isText] at last
      exact absurd (areDigits _ (List.mem_of_getLast? last)) (by decide)
  | word _ starts parts =>
      rcases List.mem_cons.mp member with rfl | member
      · exact absurd starts (by decide)
      · exact absurd (parts _ member) (by decide)

theorem Cuts.getLast? {stop depth : Nat} {text : List Char} {lexemes : List Lexeme}
    (cuts : Cuts stop [] depth text lexemes) (last : text.getLast? = some ']') :
    lexemes.getLast? = some .closeBracket := by
  induction cuts with
  | done => cases last
  | @blank _ character text _ isBlank others induction =>
      cases text with
      | nil =>
          obtain rfl := Option.some.inj last
          cases isBlank
      | cons next text =>
          rw [List.getLast?_cons_cons] at last
          exact induction last
  | @token _ _ cut lexemes found ends others induction =>
      have splits := cutAt?_splits found
      rw [splits.split] at last
      cases goesOn : cut.rest with
      | nil =>
          rw [goesOn] at others
          rw [goesOn, List.append_nil] at last
          rw [others.eq_nil, (cutAt?_sound found ends).closeBracket last]
          rfl
      | cons next rest =>
          have isRest : cut.rest ≠ [] := goesOn ▸ List.cons_ne_nil next rest
          rw [List.getLast?_append_of_ne_nil _ isRest] at last
          have behind := induction last
          cases lexemes with
          | nil => cases behind
          | cons lexeme lexemes => rwa [List.getLast?_cons_cons]

/-! ## Where the brackets close -/

theorem Cuts.length_le {stop depth : Nat} {rest text : List Char} {lexemes : List Lexeme}
    (cuts : Cuts stop rest depth text lexemes) : lexemes.length ≤ text.length := by
  induction cuts with
  | done => exact Nat.zero_le _
  | blank _ _ induction => exact Nat.le_succ_of_le induction
  | token found _ _ induction =>
      have splits := cutAt?_splits found
      have taken := List.length_pos_iff.mpr splits.takes
      have length := congrArg List.length splits.split
      rw [List.length_append] at length
      rw [List.length_cons]
      omega

theorem Cuts.closing {stop depth : Nat} {text : List Char} {lexemes : List Lexeme}
    (cuts : Cuts stop [] depth text lexemes) (only : ∀ lexeme ∈ lexemes, lexeme = .closeBracket) :
    ∀ character ∈ text, Text.isBlank character = true ∨ character = ']' := by
  induction cuts with
  | done => exact List.forall_mem_nil _
  | blank isBlank _ induction => exact List.forall_mem_cons.mpr ⟨.inl isBlank, induction only⟩
  | token found ends _ induction =>
      obtain ⟨isBracket, only⟩ := List.forall_mem_cons.mp only
      rw [eq_of_cutAt? found ends isBracket (by simp)]
      exact List.forall_mem_cons.mpr ⟨.inr rfl, induction only⟩

/-- The closing characters around a filter are its last two lexemes, where these two close. -/
theorem Cuts.before_closing {depth : Nat} {whole : List Char} {lexemes : List Lexeme}
    (cuts : Cuts 0 [] depth whole lexemes) : ∀ {filter : List Char} {text : List Lexeme},
      whole = filter ++ [')', ']'] → lexemes = text ++ [.closeParenthesis, .closeBracket] →
        Cuts 1 [')', ']'] depth whole text := by
  induction cuts with
  | done =>
      intro filter text _ spelled
      simp at spelled
  | @blank depth character whole lexemes isBlank others induction =>
      intro filter text same spelled
      cases filter with
      | nil =>
          obtain ⟨rfl, _⟩ := List.cons.inj same
          cases isBlank
      | cons first filter =>
          obtain ⟨rfl, rfl⟩ := List.cons.inj same
          exact .blank isBlank (induction rfl spelled)
  | @token depth whole cut lexemes found ends others induction =>
      intro filter text same spelled
      cases text with
      | nil =>
          obtain ⟨isParenthesis, rfl⟩ := List.cons.inj spelled
          have nested := (Cuts.token found ends others).nested rfl
          rw [isParenthesis] at nested
          obtain ⟨placed, _, _, closed⟩ := nested
          have inside := placed.inside rfl
          have closed : depth - 1 = 0 := closed
          obtain rfl : depth = 1 := by omega
          have begins := eq_of_cutAt? found ends isParenthesis (by simp)
          cases filter with
          | nil =>
              rw [same]
              exact .done
          | cons first filter =>
              -- Else the parenthesis around the filter would be one of the characters behind.
              have isRest : filter ++ [')', ']'] = cut.rest :=
                (List.cons.inj (same.symm.trans begins)).2
              have member : ')' ∈ cut.rest := by simp [← isRest]
              have only := others.closing (by simp) ')' member
              exact absurd only (by decide)
      | cons lexeme text =>
          obtain ⟨rfl, _⟩ := List.cons.inj spelled
          have isText : lexemes = text ++ [.closeParenthesis, .closeBracket] :=
            (List.cons.inj spelled).2
          have enough := others.length_le
          rw [isText, List.length_append] at enough
          rcases (cutAt?_splits found).parted same with
            ⟨between, _, isRest⟩ | ⟨others, goesOn, _, isClosing⟩
          · exact .token found ends (induction isRest isText)
          · -- The two lexemes that close are not cut off fewer than two characters.
            have length := congrArg List.length isClosing
            have positive := List.length_pos_iff.mpr goesOn
            simp only [List.length_append, List.length_cons, List.length_nil] at length enough
            omega

end JsonQuery.Lexer

namespace JsonQuery.Grammar

open Lexer (lexemes)

/-! ## Reading the filter -/

theorem readFilter_eq_ok {tokens : List Token} {others : List Lexeme} {condition : Expression}
    (same : lexemes tokens = .openBracket :: .question :: .openParenthesis :: (others ++ [.finish]))
    (notInside : .finish ∉ others) : readFilter tokens = .ok condition ↔
      ∃ text, others = text ++ [.closeParenthesis, .closeBracket] ∧
        ConditionText .disjunction text condition := by
  simp only [lexemes_eq_cons] at same
  obtain ⟨_, _, rfl, _, _, rfl, _, rest, rfl, isRest⟩ := same
  constructor
  · intro read
    obtain ⟨⟨found, afterCondition⟩, conditionRead, read⟩ := bind_eq_ok.mp read
    obtain ⟨afterParenthesis, parenthesisRead, read⟩ := bind_eq_ok.mp read
    obtain ⟨afterBracket, bracketRead, read⟩ := bind_eq_ok.mp read
    obtain ⟨after, finished, same⟩ := bind_eq_ok.mp read
    cases same
    obtain ⟨text, spelled, split⟩ := readCondition_sound _ _ _ conditionRead
    refine ⟨text, ?_, spelled⟩
    have whole : lexemes rest = text ++ lexemes afterCondition := split
    rw [isRest, expect_lexemes parenthesisRead, expect_lexemes bracketRead,
      expect_lexemes finished] at whole
    have closes : text ++ [.closeParenthesis, .closeBracket] ++ .finish :: lexemes after =
        others ++ [.finish] := by
      rw [whole, List.append_assoc]
      rfl
    exact (eq_of_append_finish notInside closes).symm
  · rintro ⟨text, rfl, spelled⟩
    rw [List.append_assoc] at isRest
    obtain ⟨front, back, rfl, frontText, backText⟩ := List.map_eq_append_iff.mp isRest
    simp only [List.cons_append, List.nil_append, lexemes_eq_cons, List.map_eq_nil_iff] at backText
    obtain ⟨first, _, rfl, second, _, rfl, third, _, rfl, rfl⟩ := backText
    have read := readCondition_complete spelled frontText
      (followed_cons ⟨.closeParenthesis, first⟩ [⟨.closeBracket, second⟩, ⟨.finish, third⟩]
        endsDisjunction_close)
    simp only [readFilter, List.drop_succ_cons, List.drop_zero, read, ok_bind, expect, if_true]

/-! ## Reading the path -/

theorem attach_ne_nil (brackets : List Bracket) : ∀ step, attach step brackets ≠ [] := by
  induction brackets with
  | nil => exact fun step => List.cons_ne_nil step []
  | cons bracket brackets induction =>
      intro step
      cases bracket with
      | index | slice | filter => exact induction _
      | wildcard | field => exact List.cons_ne_nil _ _

theorem attach_eq_singleton {brackets : List Bracket} : ∀ {step result : Step},
    attach step brackets = [result] → result.selector = step.selector ∧
      ∃ more, result.predicates = step.predicates ++ more ∧ more.length = brackets.length := by
  induction brackets with
  | nil =>
      intro step result same
      obtain rfl := List.singleton_inj.mp same
      exact ⟨rfl, [], (List.append_nil _).symm, rfl⟩
  | cons bracket brackets induction =>
      intro step result same
      have refined {predicate : Predicate} (attached : attach
          { step with predicates := step.predicates ++ [predicate] } brackets = [result]) :
          result.selector = step.selector ∧ ∃ more, result.predicates = step.predicates ++ more ∧
            more.length = brackets.length + 1 := by
        obtain ⟨selected, more, refines, length⟩ := induction attached
        refine ⟨selected, predicate :: more, ?_, congrArg (· + 1) length⟩
        rw [refines, List.append_assoc]
        rfl
      cases bracket with
      | index | slice | filter => exact refined same
      | wildcard | field => exact absurd (List.cons.inj same).2 (attach_ne_nil brackets _)

theorem GroupText.ne_nil {text : List Lexeme} {steps : List Step}
    (group : GroupText text steps) : steps ≠ [] := by
  cases group
  exact attach_ne_nil _ _

theorem StepsText.text_eq_nil {text : List Lexeme} {steps : List Step}
    (spelled : StepsText text steps) (nothing : steps = []) : text = [] := by
  cases spelled with
  | none => rfl
  | parent => cases nothing
  | parentBefore => cases nothing
  | last group => exact absurd nothing group.ne_nil
  | separated group => exact absurd (List.append_eq_nil_iff.mp nothing).1 group.ne_nil
  | adjoined group => exact absurd (List.append_eq_nil_iff.mp nothing).1 group.ne_nil

/-- A single step at whose end a bracket closes makes up the whole path, for no separator stands
behind it. -/
theorem StepsText.single {text : List Lexeme} {step : Step} (spelled : StepsText text [step])
    (closes : text.getLast? = some .closeBracket) : GroupText text [step] := by
  generalize same : [step] = steps at spelled
  cases spelled with
  | none => cases same
  | parent => cases closes
  | parentBefore others =>
      obtain ⟨_, rfl⟩ := List.cons.inj same
      rw [others.text_eq_nil rfl] at closes
      cases closes
  | last group => exact same ▸ group
  | separated group isSeparator others =>
      rcases List.singleton_eq_append_iff.mp same with ⟨nothing, _⟩ | ⟨_, nothing⟩
      · exact absurd nothing group.ne_nil
      · rw [others.text_eq_nil nothing, List.getLast?_concat] at closes
        rcases isSeparator with rfl | rfl <;> cases closes
  | adjoined group descends others =>
      rcases List.singleton_eq_append_iff.mp same with ⟨nothing, _⟩ | ⟨_, nothing⟩
      · exact absurd nothing group.ne_nil
      · rw [others.text_eq_nil nothing] at descends
        rcases descends with descends | descends <;> cases descends

theorem BracketText.filter {others : List Lexeme} {bracket : Bracket}
    (spelled : BracketText (.openBracket :: .question :: .openParenthesis :: others) bracket) :
    ∃ text condition, others = text ++ [.closeParenthesis, .closeBracket] ∧
      bracket = .filter condition ∧ ConditionText .disjunction text condition := by
  generalize same : Lexeme.openBracket :: .question :: .openParenthesis :: others = whole at spelled
  obtain ⟨content⟩ := spelled
  have same := (List.cons.inj same).2
  cases content with
  | index spelled => cases spelled; cases same
  | slice startSpelled _ => cases startSpelled <;> cases same
  | wildcard => cases same
  | field => cases same
  | @filter text condition spelled =>
      refine ⟨text, condition, ?_, rfl, spelled⟩
      have inside : others = text ++ [.closeParenthesis] ++ [.closeBracket] :=
        (List.cons.inj (List.cons.inj same).2).2
      rw [inside, List.append_assoc]
      rfl

theorem GroupText.filter {others : List Lexeme} {condition : Expression}
    (group : GroupText (.openBracket :: .question :: .openParenthesis :: others)
      [⟨.current, [.filter condition]⟩]) :
    ∃ text, others = text ++ [.closeParenthesis, .closeBracket] ∧
      ConditionText .disjunction text condition := by
  generalize isText : Lexeme.openBracket :: .question :: .openParenthesis :: others = whole,
    isStep : [(⟨.current, [.filter condition]⟩ : Step)] = steps at group
  cases group with
  | @intro text bracketsText step brackets first behind =>
      obtain ⟨selected, more, refines, length⟩ := attach_eq_singleton isStep.symm
      cases first with
      | field isName =>
          obtain rfl := (List.cons.inj isText).1
          cases isName
      | wildcard => cases isText
      | recursive isMark =>
          obtain rfl := (List.cons.inj isText).1
          rcases isMark with same | same <;> cases same
      | @bracket _ bracket spelled =>
          cases bracket with
          | filter found =>
              obtain ⟨same, rfl⟩ := List.cons.inj refines
              obtain rfl : condition = found := Predicate.filter.inj same
              obtain rfl := List.length_eq_zero_iff.mp length.symm
              cases behind
              rw [List.append_nil] at isText
              rw [← isText] at spelled
              obtain ⟨text, _, isOthers, same, inside⟩ := spelled.filter
              obtain rfl := Bracket.filter.inj same
              exact ⟨text, isOthers, inside⟩
          | index | slice | wildcard | field => cases selected

theorem queryText_filter {others : List Lexeme} {condition : Expression}
    (closes : others.getLast? = some .closeBracket) :
    QueryText (.openBracket :: .question :: .openParenthesis :: others)
        ⟨[⟨.current, [.filter condition]⟩]⟩ ↔
      ∃ text, others = text ++ [.closeParenthesis, .closeBracket] ∧
        ConditionText .disjunction text condition := by
  constructor
  · intro isQuery
    generalize isText : Lexeme.openBracket :: .question :: .openParenthesis :: others = whole
      at isQuery
    cases isQuery with
    | @intro root separator text steps isRoot isSeparator spelled =>
        obtain rfl : root = [] := by
          refine isRoot.resolve_right ?_
          rintro rfl
          cases isText
        obtain rfl : separator = [] := by
          refine isSeparator.resolve_right ?_
          rintro (rfl | rfl) <;> cases isText
        obtain rfl : _ = text := isText
        refine (spelled.single ?_).filter
        cases others with
        | nil => cases closes
        | cons first others => rwa [List.getLast?_cons_cons, List.getLast?_cons_cons,
            List.getLast?_cons_cons]
  · rintro ⟨text, rfl, spelled⟩
    have group : GroupText _ (attach (Bracket.filter condition).toStep []) :=
      .intro (.bracket (.intro (.filter spelled))) .nil
    simp only [List.append_assoc, List.cons_append, List.nil_append, List.append_nil] at group
    have query := QueryText.intro (.inl rfl) (.inl rfl) (.last group)
    exact query

end JsonQuery.Grammar

namespace JsonQuery

theorem Expression.parse_eq_ok {filter : String} {condition : Expression} :
    Expression.parse filter = .ok condition ↔
      ∃ tokens, Lexer.tokenize ("[?(" ++ filter ++ ")]") = .ok tokens ∧
        Grammar.readFilter tokens = .ok condition := by
  rw [Expression.parse, mapError_eq_ok, Grammar.readText_eq_ok]

/-- A filter stands alone exactly if it makes up a path of one step, which it alone refines, in
brackets. Its own characters spell it up to the ones that close these brackets. -/
theorem filter_parsers_agree (filter : String) (condition : Expression) :
    (Expression.parse filter = .ok condition ↔
      Query.parse ("[?(" ++ filter ++ ")]") = .ok ⟨[⟨.current, [.filter condition]⟩]⟩) ∧
    (Expression.parse filter = .ok condition → ∃ text,
      Lexer.Cuts 1 [')', ']'] 1 (filter.toList ++ [')', ']']) text ∧
        Grammar.ConditionText .disjunction text condition) := by
  rw [Expression.parse_eq_ok, Query.parse_eq_ok]
  constructor
  · refine exists_congr fun tokens => and_congr_right fun read => ?_
    obtain ⟨cut, same, spelled⟩ := Lexer.tokenize_sound read
    have notInside := spelled.not_mem_finish
    obtain ⟨others, rfl, cuts⟩ := spelled.wrapped
    have closes := cuts.getLast? (List.getLast?_append_of_ne_nil _ (List.cons_ne_nil _ _))
    rw [Grammar.readQuery_eq_ok same notInside, Grammar.queryText_filter closes,
      Grammar.readFilter_eq_ok same cuts.not_mem_finish]
  · rintro ⟨tokens, read, filterRead⟩
    obtain ⟨cut, same, spelled⟩ := Lexer.tokenize_sound read
    obtain ⟨others, rfl, cuts⟩ := spelled.wrapped
    rw [Grammar.readFilter_eq_ok same cuts.not_mem_finish] at filterRead
    obtain ⟨text, isText, inside⟩ := filterRead
    exact ⟨text, cuts.before_closing rfl isText, inside⟩

theorem filter_parsers_agree_quoted :
    Query.parse "[?(@ == ')]')]" = .ok ⟨[⟨.current,
      [.filter (.binary .equal (.reference []) (.literal (.string ")]")))]⟩]⟩ := by
  apply (filter_parsers_agree "@ == ')]'" _).1.mp
  cbv

end JsonQuery
