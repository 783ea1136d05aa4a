import JsonQuery.Proofs.Path.Filters

/-!
Which paths are accepted and what query each one spells: `Query.parse_eq_ok_iff` states it by the
grammar and the way that texts are cut into lexemes. The readers of brackets and steps are taken
through it first.
-/

namespace JsonQuery.Grammar

open Lexer (lexemes)

/-! ## Brackets -/

theorem readBound_sound : Sound readBound BoundText := by
  intro tokens value rest read
  unfold readBound at read
  split at read
  next =>
    rcases bind_eq_ok.mp read with ⟨position, isInteger, same⟩
    cases same
    exact ⟨_, .some (integer_eq_ok.mp isInteger), rfl⟩
  next =>
    cases read
    exact ⟨_, .none, rfl⟩

/-- The lexeme is no number. -/
def endsBound (lexeme : Lexeme) : Prop :=
  ∀ text, lexeme ≠ .number text

theorem readBound_complete {text : List Lexeme} {bound : Option Int}
    (spelled : BoundText text bound) : Reads readBound endsBound text bound := by
  intro tokens rest same ends
  cases spelled with
  | none =>
      rw [List.map_eq_nil_iff.mp same, List.nil_append]
      unfold readBound
      split
      next => exact absurd rfl (ends _ rfl _)
      next => rfl
  | some isInteger =>
      simp only [lexemes_eq_cons, List.map_eq_nil_iff] at same
      rcases same with ⟨_, _, rfl, rfl⟩
      simp only [List.cons_append, List.nil_append, readBound, integer_eq_ok.mpr isInteger, ok_bind]

theorem readRange_sound : Sound readRange ContentText := by
  intro tokens value rest read
  rcases bind_eq_ok.mp read with ⟨⟨start, afterStart⟩, startRead, read⟩
  rcases readBound_sound _ _ _ startRead with ⟨startText, startSpelled, startSplit⟩
  dsimp only at read
  split at read
  next =>
    rcases bind_eq_ok.mp read with ⟨⟨stop, afterStop⟩, stopRead, read⟩
    rcases readBound_sound _ _ _ stopRead with ⟨stopText, stopSpelled, stopSplit⟩
    dsimp only at read
    split at read
    next => cases read
    next =>
      cases read
      refine ⟨_, .slice startSpelled stopSpelled, ?_⟩
      simp only [startSplit, List.map_cons, stopSplit, List.append_assoc, List.cons_append]
  next =>
    cases read
    exact ⟨_, .index startSpelled, startSplit⟩
  next => cases read

/-- Neither a bound nor the colon of a slice is this lexeme. -/
def endsRange (lexeme : Lexeme) : Prop :=
  endsBound lexeme ∧ lexeme ≠ .colon

theorem readRange_index {text : List Lexeme} {position : Int}
    (spelled : BoundText text (some position)) :
    Reads readRange endsRange text (.index position) := by
  intro tokens rest same ends
  rw [readRange, readBound_complete spelled same (ends.imp fun _ => And.left), ok_bind]
  dsimp only
  split
  next => exact absurd rfl (ends _ rfl).2
  next isSome =>
    cases isSome
    rfl
  next isNone => cases isNone

theorem readRange_slice {startText stopText : List Lexeme} {start stop : Option Int}
    (startSpelled : BoundText startText start) (stopSpelled : BoundText stopText stop) :
    Reads readRange endsRange (startText ++ .colon :: stopText) (.slice start stop) := by
  intro tokens rest same ends
  rcases List.map_eq_append_iff.mp same with ⟨front, back, rfl, frontText, backText⟩
  rcases lexemes_eq_cons.mp backText with ⟨position, tail, rfl, tailText⟩
  have startRead := readBound_complete startSpelled frontText
    (followed_cons ⟨.colon, position⟩ (tail ++ rest) nofun)
  have stopRead := readBound_complete stopSpelled tailText (ends.imp fun _ => And.left)
  rw [readRange, List.append_assoc, List.cons_append, startRead, ok_bind]
  dsimp only
  rw [stopRead, ok_bind]
  dsimp only
  split
  next => exact absurd rfl (ends _ rfl).2
  next => rfl

theorem readContent_sound : Sound readContent ContentText := by
  intro tokens value rest read
  unfold readContent at read
  split at read
  next =>
    rcases bind_eq_ok.mp read with ⟨_, opened, read⟩
    rcases bind_eq_ok.mp read with ⟨⟨condition, _⟩, conditionRead, read⟩
    rcases bind_eq_ok.mp read with ⟨_, closed, same⟩
    cases same
    rcases readCondition_sound _ _ _ conditionRead with ⟨text, spelled, split⟩
    refine ⟨_, .filter spelled, ?_⟩
    simp only [List.map_cons, expect_lexemes opened, split, expect_lexemes closed,
      List.cons_append, List.append_assoc, List.nil_append]
  next =>
    cases read
    exact ⟨_, .wildcard, rfl⟩
  next =>
    cases read
    exact ⟨_, .field _, rfl⟩
  next => exact readRange_sound _ _ _ read

/-- A range begins with a number or a colon. -/
theorem readContent_range {tokens : List Token}
    (begins : Followed (fun lexeme => lexeme = .colon ∨ ∃ text, lexeme = .number text) tokens) :
    readContent tokens = readRange tokens := by
  unfold readContent
  split
  iterate 3 next =>
    rcases begins _ rfl with same | ⟨_, same⟩ <;> cases same
  next => rfl

theorem readContent_complete {text : List Lexeme} {bracket : Bracket}
    (spelled : ContentText text bracket) : Reads readContent (· = .closeBracket) text bracket := by
  intro tokens rest same closes
  have ends : Followed endsRange rest := closes.imp fun _ => (· ▸ ⟨nofun, nofun⟩)
  cases spelled with
  | index spelled =>
      have read := readRange_index spelled same ends
      rw [readContent_range, read]
      cases spelled
      rcases lexemes_eq_cons.mp same with ⟨_, _, rfl, _⟩
      exact followed_cons _ _ (.inr ⟨_, rfl⟩)
  | slice startSpelled stopSpelled =>
      have read := readRange_slice startSpelled stopSpelled same ends
      rw [readContent_range, read]
      cases startSpelled <;> rcases lexemes_eq_cons.mp same with ⟨_, _, rfl, _⟩
      · exact followed_cons _ _ (.inl rfl)
      · exact followed_cons _ _ (.inr ⟨_, rfl⟩)
  | wildcard =>
      simp only [lexemes_eq_cons, List.map_eq_nil_iff] at same
      rcases same with ⟨_, _, rfl, rfl⟩
      rfl
  | field name =>
      simp only [lexemes_eq_cons, List.map_eq_nil_iff] at same
      rcases same with ⟨_, _, rfl, rfl⟩
      rfl
  | filter spelled =>
      simp only [lexemes_eq_cons] at same
      rcases same with ⟨_, _, rfl, _, tail, rfl, tailText⟩
      rcases List.map_eq_append_iff.mp tailText with ⟨inside, close, rfl, insideText, closeText⟩
      simp only [lexemes_eq_cons, List.map_eq_nil_iff] at closeText
      rcases closeText with ⟨position, _, rfl, rfl⟩
      have read := readCondition_complete spelled insideText
        (followed_cons ⟨.closeParenthesis, position⟩ rest endsDisjunction_close)
      simp only [List.cons_append, List.append_assoc, List.nil_append, readContent,
        expect, if_true, ok_bind, read]

theorem readBracket_sound : Sound readBracket fun taken bracket =>
    BracketText (.openBracket :: taken) bracket := by
  intro tokens value rest read
  rcases bind_eq_ok.mp read with ⟨⟨bracket, _⟩, contentRead, read⟩
  rcases bind_eq_ok.mp read with ⟨_, closed, same⟩
  cases same
  rcases readContent_sound _ _ _ contentRead with ⟨text, spelled, split⟩
  refine ⟨_, .intro spelled, ?_⟩
  simp only [split, expect_lexemes closed, List.append_assoc, List.cons_append, List.nil_append]

theorem readBracket_complete {text : List Lexeme} {bracket : Bracket}
    (spelled : BracketText text bracket) {tokens : List Token} (same : lexemes tokens = text)
    (rest : List Token) : ∃ position tail, tokens = ⟨.openBracket, position⟩ :: tail ∧
      readBracket (tail ++ rest) = .ok (bracket, rest) := by
  cases spelled with
  | intro content =>
      rcases lexemes_eq_cons.mp same with ⟨position, tail, rfl, tailText⟩
      refine ⟨position, tail, rfl, ?_⟩
      rcases List.map_eq_append_iff.mp tailText with ⟨inside, close, rfl, insideText, closeText⟩
      simp only [lexemes_eq_cons, List.map_eq_nil_iff] at closeText
      rcases closeText with ⟨position, _, rfl, rfl⟩
      have read := readContent_complete content insideText
        (followed_cons ⟨.closeBracket, position⟩ rest rfl)
      simp only [List.append_assoc, List.cons_append, List.nil_append, readBracket, read, ok_bind,
        expect, if_true]

theorem readBrackets_sound (budget : Nat) : Sound (readBrackets budget) BracketsText := by
  induction budget with
  | zero =>
      intro tokens value rest read
      cases read
      exact ⟨_, .nil, rfl⟩
  | succ budget induction =>
      intro tokens value rest read
      unfold readBrackets at read
      split at read
      next same =>
        cases same
        rcases bind_eq_ok.mp read with ⟨⟨bracket, _⟩, bracketRead, read⟩
        rcases bind_eq_ok.mp read with ⟨⟨brackets, _⟩, bracketsRead, same⟩
        cases same
        rcases readBracket_sound _ _ _ bracketRead with ⟨text, spelled, split⟩
        rcases induction _ _ _ bracketsRead with ⟨others, othersSpelled, othersSplit⟩
        refine ⟨_, .cons spelled othersSpelled, ?_⟩
        simp only [List.map_cons, split, othersSplit, List.cons_append, List.append_assoc]
      next =>
        cases read
        exact ⟨_, .nil, rfl⟩

theorem readBrackets_complete {text : List Lexeme} {brackets : List Bracket}
    (spelled : BracketsText text brackets) :
    ∀ {budget : Nat}, text.length ≤ budget →
      Reads (readBrackets budget) (· ≠ .openBracket) text brackets := by
  induction spelled with
  | nil =>
      intro budget _ tokens rest same ends
      rw [List.map_eq_nil_iff.mp same, List.nil_append]
      unfold readBrackets
      split
      next => exact absurd rfl (ends _ rfl)
      next => rfl
  | @cons text others bracket brackets first _ induction =>
      intro budget enough tokens rest same ends
      rcases List.map_eq_append_iff.mp same with ⟨front, back, rfl, frontText, backText⟩
      rcases readBracket_complete first frontText (back ++ rest) with ⟨position, tail, rfl, read⟩
      rw [← frontText, List.length_append, List.map_cons, List.length_cons] at enough
      cases budget with
      | zero => omega
      | succ budget =>
          have shorter : others.length ≤ budget := by omega
          simp only [List.append_assoc, List.cons_append, readBrackets, read, ok_bind,
            induction shorter backText ends]

/-! ## Steps -/

/-- A step is spelled, or it is the parent step and what follows is a slash or the end. -/
theorem readStep_sound {tokens rest : List Token} {step : Step}
    (read : readStep tokens = .ok (step, rest)) :
    (∃ taken, StepText taken step ∧ lexemes tokens = taken ++ lexemes rest) ∨
      (step = ⟨.parent, []⟩ ∧ lexemes tokens = .doubleDot :: lexemes rest ∧
        ∃ token others, rest = token :: others ∧
          (token.lexeme = .slash ∨ token.lexeme = .finish)) := by
  unfold readStep at read
  split at read
  next =>
    cases read
    exact .inl ⟨_, .wildcard, rfl⟩
  next =>
    rcases bind_eq_ok.mp read with ⟨⟨name, _⟩, nameRead, same⟩
    cases same
    rcases readName_sound _ _ _ nameRead with ⟨_, ⟨lexeme, isName, rfl⟩, split⟩
    exact .inl ⟨_, .recursive (.inl rfl) isName, congrArg (Lexeme.doubleSlash :: ·) split⟩
  next =>
    unfold readAfterDoubleDot at read
    split at read
    next =>
      cases read
      exact .inr ⟨rfl, rfl, _, _, rfl, .inl rfl⟩
    next =>
      cases read
      exact .inr ⟨rfl, rfl, _, _, rfl, .inr rfl⟩
    next =>
      rcases bind_eq_ok.mp read with ⟨⟨name, _⟩, nameRead, same⟩
      cases same
      rcases readName_sound _ _ _ nameRead with ⟨_, ⟨lexeme, isName, rfl⟩, split⟩
      exact .inl ⟨_, .recursive (.inr rfl) isName, congrArg (Lexeme.doubleDot :: ·) split⟩
  next =>
    rcases bind_eq_ok.mp read with ⟨⟨bracket, _⟩, bracketRead, same⟩
    cases same
    rcases readBracket_sound _ _ _ bracketRead with ⟨taken, spelled, split⟩
    exact .inl ⟨_, .bracket spelled, congrArg (Lexeme.openBracket :: ·) split⟩
  next =>
    rcases bind_eq_ok.mp read with ⟨⟨name, _⟩, nameRead, same⟩
    cases same
    rcases readName_sound _ _ _ nameRead with ⟨_, ⟨lexeme, isName, rfl⟩, split⟩
    exact .inl ⟨_, .field isName, split⟩

theorem readAfterDoubleDot_name {token : Token} {name : String}
    (isName : token.lexeme.fieldName? = some name) (rest : List Token) :
    readAfterDoubleDot (token :: rest) = .ok (⟨.recursive name, []⟩, rest) := by
  unfold readAfterDoubleDot
  split
  next same =>
    cases same
    cases isName
  next same =>
    cases same
    cases isName
  next => rw [readName_complete isName, ok_bind]

theorem readStep_complete {text : List Lexeme} {step : Step} (spelled : StepText text step)
    {tokens : List Token} (same : lexemes tokens = text) (rest : List Token) :
    startsStep (tokens ++ rest) = true ∧ readStep (tokens ++ rest) = .ok (step, rest) := by
  cases spelled with
  | field isName =>
      simp only [lexemes_eq_cons, List.map_eq_nil_iff] at same
      rcases same with ⟨_, _, rfl, rfl⟩
      rcases fieldName?_eq_some.mp isName with rfl | rfl <;> exact ⟨rfl, rfl⟩
  | wildcard =>
      simp only [lexemes_eq_cons, List.map_eq_nil_iff] at same
      rcases same with ⟨_, _, rfl, rfl⟩
      exact ⟨rfl, rfl⟩
  | recursive isMark isName =>
      simp only [lexemes_eq_cons, List.map_eq_nil_iff] at same
      rcases same with ⟨_, _, rfl, _, _, rfl, rfl⟩
      rcases isMark with rfl | rfl
      · refine ⟨rfl, ?_⟩
        simp only [List.cons_append, List.nil_append, readStep, readName, isName, ok_bind]
      · exact ⟨rfl, readAfterDoubleDot_name isName rest⟩
  | bracket spelled =>
      rcases readBracket_complete spelled same rest with ⟨_, tail, rfl, read⟩
      refine ⟨rfl, ?_⟩
      simp only [List.cons_append, readStep, read, ok_bind]

theorem readStepEnd_sound {tokens rest : List Token} (read : readStepEnd tokens = .ok rest) :
    (∃ separator, (separator = .slash ∨ separator = .dot) ∧
        lexemes tokens = separator :: lexemes rest) ∨
      (tokens = rest ∧ ∃ token others, rest = token :: others ∧
        (token.lexeme = .doubleSlash ∨ token.lexeme = .doubleDot ∨ token.lexeme = .finish)) := by
  unfold readStepEnd at read
  split at read
  next => cases read; exact .inl ⟨_, .inl rfl, rfl⟩
  next => cases read; exact .inl ⟨_, .inr rfl, rfl⟩
  next => cases read; exact .inr ⟨rfl, _, _, rfl, .inl rfl⟩
  next => cases read; exact .inr ⟨rfl, _, _, rfl, .inr (.inl rfl)⟩
  next => cases read; exact .inr ⟨rfl, _, _, rfl, .inr (.inr rfl)⟩
  next => cases read

/-- The path ends here. -/
def AtEnd (tokens : List Token) : Prop :=
  ∃ position rest, tokens = ⟨.finish, position⟩ :: rest

theorem readSteps_finish (budget position : Nat) (rest : List Token) :
    readSteps budget (⟨.finish, position⟩ :: rest) = .ok ([], ⟨.finish, position⟩ :: rest) := by
  cases budget <;> rfl

/-- No bracket follows a parent step. -/
theorem readBrackets_stop (budget : Nat) {rest : List Token}
    (ends : Followed (· ≠ .openBracket) rest) : readBrackets budget rest = .ok ([], rest) := by
  have none : lexemes ([] : List Token) = [] := rfl
  exact readBrackets_complete .nil (Nat.zero_le budget) none ends

/-- Steps that begin with a lexeme other than the end have it for their first. -/
theorem head?_of_split {token : Token} {others rest : List Token} {taken : List Lexeme}
    (split : lexemes (token :: others) = taken ++ lexemes rest) (ends : AtEnd rest)
    (notFinish : token.lexeme ≠ .finish) : taken.head? = some token.lexeme := by
  cases taken with
  | nil =>
      rcases ends with ⟨_, _, rfl⟩
      exact absurd (List.cons.inj split).1 notFinish
  | cons first taken => exact congrArg some (List.cons.inj split).1.symm

section Continuation

variable {budget : Nat} {tokens afterEnd rest : List Token} {others : List Step}

/-- The steps after a step and its brackets. -/
theorem group_sound {text : List Lexeme} {first : List Step} (group : GroupText text first)
    (endRead : readStepEnd tokens = .ok afterEnd)
    (othersRead : readSteps budget afterEnd = .ok (others, rest)) (ends : AtEnd rest)
    (sound : ∃ taken, StepsText taken others ∧ lexemes afterEnd = taken ++ lexemes rest) :
    ∃ taken, StepsText (text ++ taken) (first ++ others) ∧
      lexemes tokens = taken ++ lexemes rest := by
  rcases sound with ⟨taken, spelled, split⟩
  rcases readStepEnd_sound endRead with
    ⟨separator, isSeparator, endSplit⟩ | ⟨rfl, ⟨lexeme, position⟩, behind, rfl, isNext⟩
  · refine ⟨separator :: taken, .separated group isSeparator spelled, ?_⟩
    rw [endSplit, split, List.cons_append]
  · refine ⟨taken, ?_, split⟩
    rcases isNext with rfl | rfl | rfl
    · exact .adjoined group (.inl (head?_of_split split ends nofun)) spelled
    · exact .adjoined group (.inr (head?_of_split split ends nofun)) spelled
    · rw [readSteps_finish] at othersRead
      cases othersRead
      rw [List.append_left_eq_self.mp split.symm, List.append_nil, List.append_nil]
      exact .last group

/-- The steps after a parent step. -/
theorem parent_sound
    (isNext : ∃ token behind, tokens = token :: behind ∧
      (token.lexeme = .slash ∨ token.lexeme = .finish))
    (endRead : readStepEnd tokens = .ok afterEnd)
    (othersRead : readSteps budget afterEnd = .ok (others, rest))
    (sound : ∃ taken, StepsText taken others ∧ lexemes afterEnd = taken ++ lexemes rest) :
    ∃ taken, StepsText (.doubleDot :: taken) (⟨.parent, []⟩ :: others) ∧
      lexemes tokens = taken ++ lexemes rest := by
  rcases sound with ⟨taken, spelled, split⟩
  rcases isNext with ⟨⟨lexeme, position⟩, behind, rfl, rfl | rfl⟩
  · cases endRead
    exact ⟨.slash :: taken, .parentBefore spelled, congrArg (Lexeme.slash :: ·) split⟩
  · cases endRead
    rw [readSteps_finish] at othersRead
    cases othersRead
    exact ⟨[], .parent, rfl⟩

end Continuation

theorem readSteps_sound (budget : Nat) : ∀ {tokens rest : List Token} {steps : List Step},
    readSteps budget tokens = .ok (steps, rest) → AtEnd rest →
      ∃ taken, StepsText taken steps ∧ lexemes tokens = taken ++ lexemes rest := by
  induction budget with
  | zero =>
      intro tokens rest steps read _
      cases read
      exact ⟨_, .none, rfl⟩
  | succ budget induction =>
      intro tokens rest steps read ends
      rw [readSteps] at read
      split at read
      next =>
        rcases bind_eq_ok.mp read with ⟨⟨step, afterStep⟩, stepRead, read⟩
        rcases bind_eq_ok.mp read with ⟨⟨brackets, afterBrackets⟩, bracketsRead, read⟩
        rcases bind_eq_ok.mp read with ⟨afterEnd, endRead, read⟩
        rcases bind_eq_ok.mp read with ⟨⟨others, _⟩, othersRead, same⟩
        cases same
        have sound := induction othersRead ends
        rcases readStep_sound stepRead with
          ⟨text, spelled, stepSplit⟩ | ⟨rfl, stepSplit, token, behind, rfl, isNext⟩
        · rcases readBrackets_sound _ _ _ _ bracketsRead with
            ⟨bracketsText, bracketsSpelled, bracketsSplit⟩
          have group := GroupText.intro spelled bracketsSpelled
          rcases group_sound group endRead othersRead ends sound with ⟨taken, spelled, split⟩
          refine ⟨_, spelled, ?_⟩
          rw [stepSplit, bracketsSplit, split, List.append_assoc, List.append_assoc]
        · have stops : Followed (· ≠ .openBracket) (token :: behind) := by
            rcases isNext with isNext | isNext <;> exact followed_cons _ _ (isNext ▸ nofun)
          rw [readBrackets_stop _ stops] at bracketsRead
          cases bracketsRead
          rcases parent_sound ⟨token, behind, rfl, isNext⟩ endRead othersRead sound with
            ⟨taken, spelled, split⟩
          exact ⟨_, spelled, by rw [stepSplit, split, List.cons_append]⟩
      next =>
        cases read
        exact ⟨_, .none, rfl⟩

/-! ## Steps that follow -/

theorem GroupText.length_pos {text : List Lexeme} {steps : List Step}
    (group : GroupText text steps) : 0 < text.length := by
  cases group with
  | intro first _ =>
      cases first with
      | bracket spelled =>
          cases spelled
          exact Nat.succ_pos _
      | _ => exact Nat.succ_pos _

/-- A step with its brackets, read and followed by its end. -/
theorem readSteps_group {text : List Lexeme} {steps others : List Step}
    (group : GroupText text steps) {tokens behind afterEnd rest : List Token} {budget : Nat}
    (same : lexemes tokens = text) (stops : Followed (· ≠ .openBracket) behind)
    (endRead : readStepEnd behind = .ok afterEnd)
    (othersRead : readSteps budget afterEnd = .ok (others, rest)) :
    readSteps (budget + 1) (tokens ++ behind) = .ok (steps ++ others, rest) := by
  cases group with
  | @intro text bracketsText step brackets first bracketsSpelled =>
      rcases List.map_eq_append_iff.mp same with ⟨front, back, rfl, frontText, backText⟩
      rcases readStep_complete first frontText (back ++ behind) with ⟨starts, stepRead⟩
      have enough : bracketsText.length ≤ (back ++ behind).length := by
        rw [← backText, List.length_map, List.length_append]
        exact Nat.le_add_right _ _
      have bracketsRead := readBrackets_complete bracketsSpelled enough backText stops
      simp only [List.append_assoc, readSteps, starts, if_true, stepRead, ok_bind, bracketsRead,
        endRead, othersRead]

/-- A parent step, read and followed by its end. -/
theorem readSteps_parent {behind afterEnd rest : List Token} {others : List Step} {budget : Nat}
    (isNext : ∃ token others, behind = token :: others ∧
      (token.lexeme = .slash ∨ token.lexeme = .finish))
    (endRead : readStepEnd behind = .ok afterEnd)
    (othersRead : readSteps budget afterEnd = .ok (others, rest)) (position : Nat) :
    readSteps (budget + 1) (⟨.doubleDot, position⟩ :: behind) =
      .ok (⟨.parent, []⟩ :: others, rest) := by
  have stepRead : readStep (⟨.doubleDot, position⟩ :: behind) = .ok (⟨.parent, []⟩, behind) := by
    rcases isNext with ⟨⟨_, _⟩, _, rfl, rfl | rfl⟩ <;> rfl
  have bracketsRead : readBrackets behind.length behind = .ok ([], behind) := by
    rcases isNext with ⟨⟨_, _⟩, _, rfl, rfl | rfl⟩ <;>
      exact readBrackets_stop _ (followed_cons _ _ nofun)
  have starts : startsStep (⟨.doubleDot, position⟩ :: behind) = true := rfl
  simp only [readSteps, starts, if_true, stepRead, ok_bind, bracketsRead, endRead, othersRead]
  rfl

theorem readSteps_complete {text : List Lexeme} {steps : List Step}
    (spelled : StepsText text steps) :
    ∀ {budget : Nat} {tokens rest : List Token}, text.length ≤ budget → lexemes tokens = text →
      AtEnd rest → readSteps budget (tokens ++ rest) = .ok (steps, rest) := by
  induction spelled with
  | none =>
      rintro budget tokens rest _ same ⟨position, after, rfl⟩
      rw [List.map_eq_nil_iff.mp same]
      exact readSteps_finish budget position after
  | parent =>
      rintro budget tokens rest enough same ⟨position, after, rfl⟩
      simp only [lexemes_eq_cons, List.map_eq_nil_iff] at same
      rcases same with ⟨_, _, rfl, rfl⟩
      cases budget with
      | zero => cases enough
      | succ budget =>
          exact readSteps_parent ⟨_, _, rfl, .inr rfl⟩ rfl (readSteps_finish _ _ _) _
  | parentBefore _ induction =>
      intro budget tokens rest enough same ends
      simp only [lexemes_eq_cons] at same
      rcases same with ⟨_, _, rfl, _, tail, rfl, tailText⟩
      cases budget with
      | zero => cases enough
      | succ budget =>
          have shorter := Nat.le_of_succ_le (Nat.le_of_succ_le_succ enough)
          exact readSteps_parent ⟨_, _, rfl, .inl rfl⟩ rfl (induction shorter tailText ends) _
  | @last text steps group =>
      rintro budget tokens rest enough same ⟨position, after, rfl⟩
      have nonempty := group.length_pos
      cases budget with
      | zero => omega
      | succ budget =>
          have finished := readSteps_finish budget position after
          rw [← List.append_nil steps]
          exact readSteps_group group same (followed_cons _ _ nofun) rfl finished
  | @separated text rest separator steps others group isSeparator _ induction =>
      intro budget tokens after enough same ends
      have nonempty := group.length_pos
      rcases List.map_eq_append_iff.mp same with ⟨front, back, rfl, frontText, backText⟩
      rcases lexemes_eq_cons.mp backText with ⟨position, tail, rfl, tailText⟩
      rw [List.length_append, List.length_cons] at enough
      cases budget with
      | zero => omega
      | succ budget =>
          have shorter : rest.length ≤ budget := by omega
          have read := induction shorter tailText ends
          rw [List.append_assoc, List.cons_append]
          rcases isSeparator with rfl | rfl <;>
            exact readSteps_group group frontText (followed_cons _ _ nofun) rfl read
  | @adjoined text rest steps others group descends _ induction =>
      intro budget tokens after enough same ends
      have nonempty := group.length_pos
      rcases List.map_eq_append_iff.mp same with ⟨front, back, rfl, frontText, backText⟩
      rw [List.length_append] at enough
      cases budget with
      | zero => omega
      | succ budget =>
          have shorter : rest.length ≤ budget := by omega
          have read := induction shorter backText ends
          rw [List.append_assoc]
          -- The descent ends the group but stays where it is, for it begins the next one.
          cases rest with
          | nil => rcases descends with descends | descends <;> cases descends
          | cons lexeme rest =>
              rcases lexemes_eq_cons.mp backText with ⟨position, tail, rfl, _⟩
              rcases descends with descends | descends <;> cases descends <;>
                exact readSteps_group group frontText (followed_cons _ _ nofun) rfl read

/-! ## Queries -/

/-- The first lexeme of a step is no mark of the root and no separator. -/
def beginsSteps (lexeme : Lexeme) : Prop :=
  lexeme ≠ .root ∧ lexeme ≠ .slash ∧ lexeme ≠ .dot

theorem StepText.begins {text : List Lexeme} {step : Step} (spelled : StepText text step) :
    ∃ lexeme rest, text = lexeme :: rest ∧ beginsSteps lexeme := by
  cases spelled with
  | field isName =>
      rcases fieldName?_eq_some.mp isName with rfl | rfl <;>
        exact ⟨_, _, rfl, nofun, nofun, nofun⟩
  | wildcard => exact ⟨_, _, rfl, nofun, nofun, nofun⟩
  | recursive isMark _ =>
      rcases isMark with rfl | rfl <;> exact ⟨_, _, rfl, nofun, nofun, nofun⟩
  | bracket spelled =>
      cases spelled
      exact ⟨_, _, rfl, nofun, nofun, nofun⟩

theorem GroupText.begins {text : List Lexeme} {steps : List Step} (group : GroupText text steps) :
    ∃ lexeme rest, text = lexeme :: rest ∧ beginsSteps lexeme := by
  cases group with
  | intro first _ =>
      rcases first.begins with ⟨lexeme, rest, rfl, begins⟩
      exact ⟨lexeme, _, rfl, begins⟩

theorem StepsText.begins {text : List Lexeme} {steps : List Step}
    (spelled : StepsText text steps) : ∀ lexeme ∈ text.head?, beginsSteps lexeme := by
  have grouped {text rest : List Lexeme} {steps : List Step} (group : GroupText text steps) :
      ∀ lexeme ∈ (text ++ rest).head?, beginsSteps lexeme := by
    rcases group.begins with ⟨first, others, rfl, begins⟩
    intro lexeme head
    cases head
    exact begins
  cases spelled with
  | none => nofun
  | parent =>
      intro lexeme head
      cases head
      exact ⟨nofun, nofun, nofun⟩
  | parentBefore =>
      intro lexeme head
      cases head
      exact ⟨nofun, nofun, nofun⟩
  | last group =>
      rw [← List.append_nil text]
      exact grouped group
  | separated group => exact grouped group
  | adjoined group => exact grouped group

theorem skipRoot_sound (tokens : List Token) : ∃ root : List Lexeme,
    (root = [] ∨ root = [.root]) ∧ lexemes tokens = root ++ lexemes (skipRoot tokens) := by
  unfold skipRoot
  split
  next => exact ⟨_, .inr rfl, rfl⟩
  next => exact ⟨_, .inl rfl, rfl⟩

theorem skipSeparator_sound (tokens : List Token) : ∃ separator : List Lexeme,
    (separator = [] ∨ separator = [.slash] ∨ separator = [.dot]) ∧
      lexemes tokens = separator ++ lexemes (skipSeparator tokens) := by
  unfold skipSeparator
  split
  next => exact ⟨_, .inr (.inl rfl), rfl⟩
  next => exact ⟨_, .inr (.inr rfl), rfl⟩
  next => exact ⟨_, .inl rfl, rfl⟩

theorem skipRoot_complete {front rest : List Token}
    (isRoot : lexemes front = [] ∨ lexemes front = [.root])
    (stops : Followed (· ≠ .root) rest) : skipRoot (front ++ rest) = rest := by
  rcases isRoot with same | same
  · rw [List.map_eq_nil_iff.mp same, List.nil_append]
    unfold skipRoot
    split
    next => exact absurd rfl (stops _ rfl)
    next => rfl
  · simp only [lexemes_eq_cons, List.map_eq_nil_iff] at same
    rcases same with ⟨_, _, rfl, rfl⟩
    rfl

theorem skipSeparator_complete {front rest : List Token}
    (isSeparator : lexemes front = [] ∨ lexemes front = [.slash] ∨ lexemes front = [.dot])
    (stops : Followed beginsSteps rest) : skipSeparator (front ++ rest) = rest := by
  rcases isSeparator with same | same | same
  · rw [List.map_eq_nil_iff.mp same, List.nil_append]
    unfold skipSeparator
    split
    next => exact absurd rfl (stops _ rfl).2.1
    next => exact absurd rfl (stops _ rfl).2.2
    next => rfl
  all_goals
    simp only [lexemes_eq_cons, List.map_eq_nil_iff] at same
    rcases same with ⟨_, _, rfl, rfl⟩
    rfl

theorem readQuery_sound {tokens : List Token} {query : Query}
    (read : readQuery tokens = .ok query) :
    ∃ text rest, QueryText text query ∧ lexemes tokens = text ++ .finish :: rest := by
  rcases bind_eq_ok.mp read with ⟨⟨steps, rest⟩, stepsRead, read⟩
  rcases bind_eq_ok.mp read with ⟨after, finished, same⟩
  cases same
  rcases expect_eq_ok.mp finished with ⟨⟨_, position⟩, rfl, rfl⟩
  rcases readSteps_sound _ stepsRead ⟨_, _, rfl⟩ with ⟨text, spelled, split⟩
  rcases skipRoot_sound tokens with ⟨root, isRoot, rootSplit⟩
  rcases skipSeparator_sound (skipRoot tokens) with ⟨separator, isSeparator, separatorSplit⟩
  refine ⟨_, lexemes after, .intro isRoot isSeparator spelled, ?_⟩
  simp only [rootSplit, separatorSplit, split, List.map_cons, List.append_assoc]

theorem readQuery_complete {text : List Lexeme} {query : Query} (spelled : QueryText text query)
    {tokens : List Token} (same : lexemes tokens = text ++ [.finish]) :
    readQuery tokens = .ok query := by
  cases spelled with
  | @intro root separator text steps isRoot isSeparator spelled =>
      rw [List.append_assoc, List.append_assoc] at same
      rcases List.map_eq_append_iff.mp same with ⟨rootTokens, others, rfl, rfl, othersText⟩
      rcases List.map_eq_append_iff.mp othersText with ⟨separatorTokens, others, rfl, rfl, tailText⟩
      rcases List.map_eq_append_iff.mp tailText with ⟨front, back, rfl, rfl, backText⟩
      simp only [lexemes_eq_cons, List.map_eq_nil_iff] at backText
      rcases backText with ⟨position, _, rfl, rfl⟩
      have begins : Followed beginsSteps (front ++ [⟨.finish, position⟩]) := by
        cases front with
        | nil => exact followed_cons _ _ ⟨nofun, nofun, nofun⟩
        | cons token front => exact followed_cons _ _ (spelled.begins _ rfl)
      have notRoot : Followed (· ≠ .root)
          (separatorTokens ++ (front ++ [⟨.finish, position⟩])) := by
        cases separatorTokens with
        | nil => exact begins.imp fun _ => And.left
        | cons token others =>
            have separates : token.lexeme = .slash ∨ token.lexeme = .dot := by
              rcases isSeparator with same | same | same
              · cases same
              · exact .inl (List.cons.inj same).1
              · exact .inr (List.cons.inj same).1
            refine followed_cons _ _ ?_
            rcases separates with same | same <;> exact same ▸ nofun
      have enough : (lexemes front).length ≤
          (front ++ [(⟨.finish, position⟩ : Token)]).length := by
        rw [List.length_map, List.length_append]
        exact Nat.le_add_right _ _
      have read := readSteps_complete spelled enough rfl ⟨position, [], rfl⟩
      have finished : expect .finish .pathStep [⟨.finish, position⟩] = .ok [] := rfl
      simp only [readQuery, skipRoot_complete isRoot notRoot,
        skipSeparator_complete isSeparator begins, read, ok_bind, finished]

/-- A mark of the end that stands nowhere else ends both of two equal lists. -/
theorem eq_of_append_finish {text cut rest : List Lexeme} (notInside : Lexeme.finish ∉ cut)
    (same : text ++ .finish :: rest = cut ++ [.finish]) : text = cut := by
  rcases List.append_eq_append_iff.mp same with ⟨between, rfl, behind⟩ | ⟨between, rfl, behind⟩
  · cases between with
    | nil => rw [List.append_nil]
    | cons first between =>
        cases (List.cons.inj behind).1
        simp at notInside
  · cases between with
    | nil => rw [List.append_nil]
    | cons first between =>
        have length := congrArg List.length behind
        simp only [List.length_cons, List.length_append, List.length_nil] at length
        omega

theorem readQuery_eq_ok {tokens : List Token} {cut : List Lexeme} {query : Query}
    (same : lexemes tokens = cut ++ [.finish]) (notInside : .finish ∉ cut) :
    readQuery tokens = .ok query ↔ QueryText cut query := by
  constructor
  · intro read
    obtain ⟨text, rest, isQuery, split⟩ := readQuery_sound read
    rwa [← eq_of_append_finish notInside (split.symm.trans same)]
  · exact fun isQuery => readQuery_complete isQuery same

theorem readText_eq_ok {α : Type} {reader : List Token → Except Fault α} {text : String}
    {value : α} : readText reader text = .ok value ↔
      ∃ tokens, Lexer.tokenize text = .ok tokens ∧ reader tokens = .ok value := by
  simp only [readText, bind_eq_ok, mapError_eq_ok]

end JsonQuery.Grammar

namespace JsonQuery

theorem Query.parse_eq_ok {path : String} {query : Query} :
    Query.parse path = .ok query ↔
      ∃ tokens, Lexer.tokenize path = .ok tokens ∧ Grammar.readQuery tokens = .ok query := by
  rw [Query.parse, mapError_eq_ok, Grammar.readText_eq_ok]

theorem Query.parse_eq_ok_iff {path : String} {query : Query} :
    Query.parse path = .ok query ↔
      ∃ text, Lexer.PathLexemes path.toList text ∧ Grammar.QueryText text query := by
  rw [Query.parse_eq_ok]
  constructor
  · rintro ⟨tokens, cut, read⟩
    rcases Lexer.tokenize_sound cut with ⟨text, same, spelled⟩
    exact ⟨text, spelled, (Grammar.readQuery_eq_ok same spelled.not_mem_finish).mp read⟩
  · rintro ⟨text, spelled, isQuery⟩
    rcases Lexer.tokenize_complete spelled with ⟨tokens, cut, same⟩
    exact ⟨tokens, cut, Grammar.readQuery_complete isQuery same⟩

end JsonQuery
