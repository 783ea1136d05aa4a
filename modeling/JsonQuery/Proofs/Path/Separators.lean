import JsonQuery.Proofs.Path.Tokens
import JsonQuery.Proofs.Path.Writing

/-!
Slashes and dots between steps. No step begins with either of them or looks at the one behind it,
so a path means the same whichever of the two stands where. Within strings and brackets both keep
a meaning of their own.
-/

namespace JsonQuery

open Grammar (Bracket BracketText BracketsText BracketWritten GroupText StepText StepsText)

/-! ## The texts of steps -/

inductive SpellsHead : List Char → Step → Prop
  | bare {name : List Char} (isText : name ≠ [])
      (plain : ∀ character ∈ name, Lexer.isNameCharacter character = true) :
      SpellsHead name ⟨.field (String.ofList name), []⟩
  | quoted {quote : Char} {text content : List Char} (isQuote : quote = '\'' ∨ quote = '"')
      (spelled : Lexer.SpellsContent quote text content) :
      SpellsHead (quote :: (text ++ [quote])) ⟨.field (String.ofList content), []⟩
  | wildcard : SpellsHead ['*'] ⟨.wildcard, []⟩

def SpellsBracket (text : List Char) (bracket : Bracket) : Prop :=
  ∃ lexemes, BracketText lexemes bracket ∧ Lexer.Cuts 0 [] 0 text lexemes

/-- A step and the brackets after it, and the steps that they make together. -/
inductive SpellsStep : List Char → List Step → Prop
  | intro {head : List Char} {step : Step} (first : SpellsHead head step)
      (brackets : List (List Char × Bracket))
      (others : ∀ bracket ∈ brackets, SpellsBracket bracket.1 bracket.2) :
      SpellsStep (head ++ brackets.flatMap Prod.fst)
        (Grammar.attach step (brackets.map Prod.snd))

def IsSeparator (character : Char) : Prop :=
  character = '/' ∨ character = '.'

/-- The paths of some steps: a slash or a dot before each step, and perhaps one at the end. -/
inductive Separated : List (List Char) → List Char → Prop
  | done : Separated [] []
  | trailing {separator : Char} (isSeparator : IsSeparator separator) :
      Separated [] [separator]
  | step {separator : Char} {text path : List Char} {texts : List (List Char)}
      (isSeparator : IsSeparator separator) (others : Separated texts path) :
      Separated (text :: texts) (separator :: (text ++ path))

namespace Lexer

def EndsName (text : List Char) : Prop :=
  ∀ character ∈ text.head?, isNameCharacter character = false

theorem endsName_cons {first : Char} (ends : isNameCharacter first = false) (text : List Char) :
    EndsName (first :: text) := by
  intro character head
  cases head
  exact ends

end Lexer

open Lexer (Splitting Anything NotBefore EndsName)

/-! ## Steps -/

theorem SpellsHead.written {text : List Char} {step : Step} (spelled : SpellsHead text step) :
    ∃ lexemes, StepText lexemes step ∧ Splitting EndsName 0 0 text lexemes := by
  cases spelled with
  | bare isText plain =>
      refine ⟨[.name (String.ofList text)], .field rfl, ?_⟩
      exact .symbol (fun rest ends => Lexer.cutAt?_name isText plain ends) (fun _ => rfl) rfl
  | @quoted quote text content isQuote spelled =>
      refine ⟨[.quoted (String.ofList content)], .field rfl, ?_⟩
      exact .symbol (fun rest _ => Lexer.cutAt?_string 0 isQuote spelled rest) (fun _ => rfl) rfl
  | wildcard => exact ⟨[.star], .wildcard, .symbol (fun _ _ => rfl) (fun _ => rfl) rfl⟩

theorem SpellsHead.begins {text : List Char} {step : Step} (spelled : SpellsHead text step) :
    ∃ first others, text = first :: others ∧ ¬IsSeparator first := by
  cases spelled with
  | bare isText plain =>
      cases text with
      | nil => exact absurd rfl isText
      | cons first others =>
          refine ⟨first, others, rfl, ?_⟩
          have isName := plain first List.mem_cons_self
          rintro (rfl | rfl) <;> exact absurd isName (by decide)
  | quoted isQuote =>
      refine ⟨_, _, rfl, ?_⟩
      rcases isQuote with rfl | rfl <;> simp [IsSeparator]
  | wildcard => exact ⟨'*', [], rfl, by simp [IsSeparator]⟩

theorem SpellsBracket.endsName {text : List Char} {bracket : Bracket}
    (spelled : SpellsBracket text bracket) (rest : List Char) : EndsName (text ++ rest) := by
  obtain ⟨_, @⟨inside, _, content⟩, cuts⟩ := spelled
  generalize same : Lexeme.openBracket :: (inside ++ [.closeBracket]) = lexemes at cuts
  cases cuts with
  | done => cases same
  | @blank _ character _ _ isBlank =>
      apply Lexer.endsName_cons
      simp only [Text.isBlank, Bool.or_eq_true, decide_eq_true_eq] at isBlank
      rcases isBlank with ((rfl | rfl) | rfl) | rfl <;> decide
  | @token _ _ cut _ found ends =>
      have opens : cut.lexeme = .openBracket := (List.cons.inj same).1.symm
      have begins : text = '[' :: cut.rest := Lexer.eq_of_cutAt? found ends opens (by simp)
      rw [begins]
      exact Lexer.endsName_cons rfl _

theorem spellsBracket_iff {text : List Char} {bracket : Bracket} :
    SpellsBracket text bracket ↔ BracketWritten text bracket := by
  constructor
  · rintro ⟨lexemes, bracketText, cuts⟩
    refine ⟨lexemes, bracketText, ?_⟩
    intro rest _
    apply cuts.closed rest
    cases bracketText with
    | intro content =>
        apply Or.inr
        rw [← List.cons_append, List.getLast?_concat]
  · rintro ⟨lexemes, bracketText, splitting⟩
    have cuts := splitting [] trivial
    rw [List.append_nil] at cuts
    exact ⟨lexemes, bracketText, cuts⟩

theorem SpellsStep.written {text : List Char} {steps : List Step}
    (spelled : SpellsStep text steps) :
    ∃ lexemes, GroupText lexemes steps ∧ Splitting EndsName 0 0 text lexemes := by
  cases spelled with
  | @intro head step first brackets others =>
      obtain ⟨headLexemes, headText, headSplitting⟩ := first.written
      obtain ⟨lexemes, bracketsText, splitting⟩ :=
        Grammar.brackets_written fun bracket there => spellsBracket_iff.mp (others bracket there)
      refine ⟨_, .intro headText bracketsText, ?_⟩
      apply headSplitting.append (splitting.weaken fun _ _ => trivial)
      intro rest ends
      cases brackets with
      | nil => exact ends
      | cons bracket brackets =>
          rw [List.flatMap_cons, List.append_assoc]
          exact (others bracket List.mem_cons_self).endsName _

theorem SpellsStep.notBefore {text : List Char} {steps : List Step}
    (spelled : SpellsStep text steps) {separator : Char} (isSeparator : IsSeparator separator)
    (rest : List Char) : NotBefore separator (text ++ rest) := by
  cases spelled with
  | intro first brackets others =>
      obtain ⟨character, behind, rfl, notSeparator⟩ := first.begins
      apply Lexer.notBefore_cons
      rintro rfl
      exact notSeparator isSeparator

/-! ## Paths -/

theorem IsSeparator.written {separator : Char} (isSeparator : IsSeparator separator) :
    ∃ lexeme : Lexeme, (lexeme = .slash ∨ lexeme = .dot) ∧
      Splitting (NotBefore separator) 0 0 [separator] [lexeme] := by
  rcases isSeparator with rfl | rfl
  · exact ⟨.slash, .inl rfl, Grammar.slash_written⟩
  · refine ⟨.dot, .inr rfl, ?_⟩
    exact .symbol (fun _ single => Lexer.cutAt?_dot single) (fun _ => rfl) rfl

theorem Separated.endsName {texts : List (List Char)} {path : List Char}
    (separated : Separated texts path) : EndsName path := by
  cases separated with
  | done => nofun
  | trailing isSeparator | step isSeparator =>
      apply Lexer.endsName_cons
      rcases isSeparator with rfl | rfl <;> decide

theorem Separated.unmarked {texts : List (List Char)} {path : List Char}
    (separated : Separated texts path) : Lexer.afterRoot? path = none := by
  cases separated with
  | done => rfl
  | trailing isSeparator | step isSeparator => rcases isSeparator with rfl | rfl <;> rfl

theorem Separated.written {parts : List (List Char × List Step)}
    (spelled : ∀ part ∈ parts, SpellsStep part.1 part.2) {path : List Char}
    (separated : Separated (parts.map Prod.fst) path) :
    (path = [] ∧ parts = []) ∨ ∃ separator lexemes, (separator = .slash ∨ separator = .dot) ∧
      Lexer.Cuts 0 [] 0 path (separator :: lexemes) ∧
      StepsText lexemes (parts.flatMap Prod.snd) := by
  induction parts generalizing path with
  | nil =>
      cases separated with
      | done => exact .inl ⟨rfl, rfl⟩
      | trailing isSeparator =>
          obtain ⟨lexeme, isLexeme, splitting⟩ := isSeparator.written
          exact .inr ⟨lexeme, [], isLexeme, splitting [] nofun, .none⟩
  | cons part parts induction =>
      cases separated with
      | @step separator _ behind _ isSeparator others =>
          obtain ⟨isStep, areSteps⟩ := List.forall_mem_cons.mp spelled
          obtain ⟨lexeme, isLexeme, separatorCut⟩ := isSeparator.written
          obtain ⟨lexemes, group, stepCut⟩ := isStep.written
          have first := (separatorCut _ (isStep.notBefore isSeparator behind)).append
            (stepCut behind others.endsName)
          refine .inr ⟨lexeme, ?_⟩
          rcases induction areSteps others with
            ⟨rfl, rfl⟩ | ⟨next, nextLexemes, isNext, nextCut, nextSpelled⟩
          · refine ⟨lexemes, isLexeme, first, ?_⟩
            rw [List.flatMap_singleton]
            exact .last group
          · refine ⟨lexemes ++ next :: nextLexemes, isLexeme, first.append nextCut, ?_⟩
            exact .separated group isNext nextSpelled

/-- Slash and dot are interchangeable. Whichever of them stands before each of some steps, and at
the end or not, the path is accepted, and it is the query of those steps. -/
theorem parse_separated {parts : List (List Char × List Step)}
    (spelled : ∀ part ∈ parts, SpellsStep part.1 part.2) {path : String}
    (separated : Separated (parts.map Prod.fst) path.toList) :
    Query.parse path = .ok ⟨parts.flatMap Prod.snd⟩ := by
  apply Query.parse_eq_ok_iff.mpr
  have unmarked := separated.unmarked
  rcases separated.written spelled with
    ⟨nothing, rfl⟩ | ⟨separator, lexemes, isSeparator, cuts, stepsText⟩
  · rw [nothing] at unmarked ⊢
    exact ⟨[], .plain unmarked .done, .intro (.inl rfl) (.inl rfl) .none⟩
  · refine ⟨separator :: lexemes, .plain unmarked cuts, ?_⟩
    rcases isSeparator with rfl | rfl
    · exact .intro (.inl rfl) (.inr (.inl rfl)) stepsText
    · exact .intro (.inl rfl) (.inr (.inr rfl)) stepsText

theorem parse_separated_mixed :
    let condition := Expression.binary .equal (.reference [.key "c"]) (.literal (.string "/.]"))
    let query : Query := ⟨[⟨.field "$1", []⟩, ⟨.field "x/.'", [.slice (some (-1)) none]⟩,
      ⟨.wildcard, [.filter condition]⟩]⟩
    Query.parse "/$1.'x/.\\''[-1:]/*[?(@[\"c\"]==\"/.]\")]." = .ok query ∧
      Query.parse ".$1/'x/.\\''[-1:].*[?(@[\"c\"]==\"/.]\")]" = .ok query := by
  intro condition query
  let sliceText := ['[', '-', '1', ':', ']']
  let filterText := "[?(@[\"c\"]==\"/.]\")]".toList
  let quotedText := '\'' :: (['x', '/', '.', '\\', '\''] ++ ['\''])
  have slice : SpellsBracket sliceText (.slice (some (-1)) none) := by
    have inRange : (∀ bound ∈ some (-1), InRange bound) ∧ ∀ bound ∈ none, InRange bound := by
      simp [InRange]
    exact spellsBracket_iff.mpr (Grammar.slice_written inRange)
  have filter : SpellsBracket filterText (.filter condition) := by
    obtain ⟨numeral, writes⟩ := exists_writesDoubles
    have wellFormed : condition.WellFormed :=
      .comparison rfl (.reference (List.forall_mem_singleton.mpr trivial)) (.literal trivial)
    exact spellsBracket_iff.mpr (Grammar.filter_written writes wellFormed)
  have content : Lexer.SpellsContent '\'' ['x', '/', '.', '\\', '\''] ['x', '/', '.', '\''] :=
    .plain (by decide) (by decide) (.plain (by decide) (by decide)
      (.plain (by decide) (by decide) (.escaped '\'' .nil)))
  have bare : SpellsHead ['$', '1'] ⟨.field "$1", []⟩ :=
    .bare nofun (List.all_eq_true.mp rfl)
  have first : SpellsStep ['$', '1'] [⟨.field "$1", []⟩] := .intro bare [] nofun
  have second : SpellsStep (quotedText ++ sliceText)
      [⟨.field "x/.'", [.slice (some (-1)) none]⟩] :=
    .intro (.quoted (.inl rfl) content) [(sliceText, _)] (List.forall_mem_singleton.mpr slice)
  have third : SpellsStep ('*' :: filterText) [⟨.wildcard, [.filter condition]⟩] :=
    .intro .wildcard [(filterText, _)] (List.forall_mem_singleton.mpr filter)
  let parts : List (List Char × List Step) := [(['$', '1'], [⟨.field "$1", []⟩]),
    (quotedText ++ sliceText, [⟨.field "x/.'", [.slice (some (-1)) none]⟩]),
    ('*' :: filterText, [⟨.wildcard, [.filter condition]⟩])]
  have spelled : ∀ part ∈ parts, SpellsStep part.1 part.2 :=
    List.forall_mem_cons.mpr ⟨first, List.forall_mem_cons.mpr ⟨second,
      List.forall_mem_singleton.mpr third⟩⟩
  constructor
  · apply parse_separated spelled
    have mixed : Separated (parts.map Prod.fst) ('/' :: (['$', '1'] ++ '.' ::
        (quotedText ++ sliceText ++ '/' :: ('*' :: filterText ++ ['.'])))) :=
      .step (.inl rfl) (.step (.inr rfl) (.step (.inl rfl) (.trailing (.inr rfl))))
    exact mixed
  · apply parse_separated spelled
    have mixed : Separated (parts.map Prod.fst) ('.' :: (['$', '1'] ++ '/' ::
        (quotedText ++ sliceText ++ '.' :: ('*' :: filterText ++ [])))) :=
      .step (.inr rfl) (.step (.inl rfl) (.step (.inr rfl) .done))
    exact mixed

end JsonQuery
