import JsonQuery.Proofs.Path.Tokens
import JsonQuery.Proofs.Path.Parsing

/-!
Paths behind each other. A text with a slash behind it is cut into the same lexemes as without,
unless it ends in a slash of its own, and the steps of a path that begins with a slash go on from
any step before them, save a parent step that a descent follows. `parse_append` puts the two
together.
-/

namespace JsonQuery.Lexer

/-! ## Cuts before a slash -/

/-- Only a slash goes on with a slash. -/
theorem parts_slash {source : List Char} (isText : source ≠ []) (notSlash : source ≠ ['/']) :
    Parts source '/' := by
  have double : ∀ depth, ∀ symbol ∈ symbolsAt depth,
      '/' ∈ symbol.text.toList.tail → symbol.text.toList = ['/', '/'] := by
    intro depth
    rcases symbolsAt_eq depth with same | same <;> rw [same] <;> decide
  refine ⟨rfl, by decide, by decide, ?_⟩
  intro depth symbol isSymbol same
  have isBehind : '/' ∈ symbol.text.toList.tail := by
    rw [same, List.tail_append_of_ne_nil isText]
    exact List.mem_append_right _ List.mem_cons_self
  have both : source ++ ['/'] = ['/'] ++ ['/'] :=
    same.symm.trans (double depth symbol isSymbol isBehind)
  exact notSlash (List.append_cancel_right both)

namespace Cuts

/-- The same lexemes are cut off with a slash behind the text, if the last of them is no slash. -/
theorem before_slash {depth : Nat} {text : List Char} {lexemes : List Lexeme}
    (cuts : Cuts 0 [] depth text lexemes) (others : List Char) :
    lexemes.getLast? ≠ some .slash →
      Cuts 0 ('/' :: others) depth (text ++ '/' :: others) lexemes := by
  induction cuts with
  | done => exact fun _ => .done
  | blank isBlank _ induction => exact fun notSlash => .blank isBlank (induction notSlash)
  | @token depth text cut lexemes found ends rest induction =>
      intro notSlash
      have apart : text ≠ ['/'] := by
        rintro rfl
        cases depth with
        | zero =>
            cases found
            rw [rest.eq_nil] at notSlash
            exact notSlash rfl
        | succ depth => cases found
      have behind : lexemes.getLast? ≠ some .slash := by
        intro isSlash
        rw [List.getLast?_cons, isSlash] at notSlash
        exact notSlash rfl
      have splits := cutAt?_splits found
      have parts : cut.rest = [] → ∀ next ∈ ('/' :: others).head?, Parts cut.source next := by
        rintro nothing _ ⟨⟩
        refine parts_slash splits.takes fun isSlash => apart ?_
        rw [splits.split, isSlash, nothing, List.append_nil]
      obtain ⟨foundThere, endsThere⟩ := cutAt?_before found ends parts
      have token := Cuts.token foundThere endsThere (induction behind)
      exact token

end Cuts

theorem skipBlanks_append_slash (text others : List Char) :
    Text.skipBlanks (text ++ '/' :: others) = Text.skipBlanks text ++ '/' :: others := by
  rw [Text.skipBlanks, Text.skipBlanks, List.dropWhile_append]
  split
  next nothing =>
    rw [List.isEmpty_iff.mp nothing]
    rfl
  next => rfl

theorem afterRoot?_before_slash (text others : List Char) :
    afterRoot? (text ++ '/' :: others) = (afterRoot? text).map (· ++ '/' :: others) := by
  unfold afterRoot?
  rw [skipBlanks_append_slash]
  cases Text.skipBlanks text with
  | nil => rfl
  | cons first rest =>
      rw [List.cons_append]
      by_cases isDollar : first = '$'
      · cases isDollar
        have same : endsRoot (rest ++ '/' :: others) = endsRoot rest := by cases rest <;> rfl
        show (if endsRoot (rest ++ '/' :: others) then some (rest ++ '/' :: others) else none) =
          (if endsRoot rest then some rest else none).map (· ++ '/' :: others)
        rw [same]
        split <;> rfl
      · split
        next found => exact absurd (List.cons.inj found).1 isDollar
        next =>
          split
          next found => exact absurd (List.cons.inj found).1 isDollar
          next => rfl

/-- A path that begins with a slash goes on from the lexemes before it, if the last of them is no
slash. -/
theorem PathLexemes.append {text others : List Char} {first last : List Lexeme}
    (firstCut : PathLexemes text first) (lastCut : PathLexemes ('/' :: others) last)
    (notSlash : first.getLast? ≠ some .slash) :
    PathLexemes (text ++ '/' :: others) (first ++ last) := by
  cases lastCut with
  | root marked => cases marked
  | plain _ lastCuts =>
      cases firstCut with
      | @root rest lexemes marked cuts =>
          have behind : lexemes.getLast? ≠ some .slash := by
            intro isSlash
            rw [List.getLast?_cons, isSlash] at notSlash
            exact notSlash rfl
          refine .root ?_ ((cuts.before_slash others behind).append lastCuts)
          rw [afterRoot?_before_slash, marked]
          rfl
      | plain unmarked cuts =>
          refine .plain ?_ ((cuts.before_slash others notSlash).append lastCuts)
          rw [afterRoot?_before_slash, unmarked]
          rfl

/-- The first lexeme of a path that begins with a slash. -/
theorem PathLexemes.head_of_slash {others : List Char} {lexemes : List Lexeme}
    (cut : PathLexemes ('/' :: others) lexemes) :
    lexemes.head? = some (if others.head? = some '/' then .doubleSlash else .slash) := by
  cases cut with
  | root marked => cases marked
  | plain _ cuts =>
      cases cuts with
      | blank isBlank => cases isBlank
      | token found =>
          by_cases double : others.head? = some '/'
          · rcases List.head?_eq_some_iff.mp double with ⟨_, rfl⟩
            cases found
            rfl
          · rw [cutAt?_slash double] at found
            cases found
            rw [if_neg double]
            rfl

/-- A path is cut into its lexemes in one way only. -/
theorem PathLexemes.unique {text : List Char} {first second : List Lexeme}
    (firstCut : PathLexemes text first) (secondCut : PathLexemes text second) :
    first = second := by
  rw [← String.toList_ofList (l := text)] at firstCut secondCut
  rcases tokenize_complete firstCut with ⟨tokens, read, same⟩
  rcases tokenize_complete secondCut with ⟨others, readAgain, sameAgain⟩
  rw [read] at readAgain
  cases readAgain
  exact List.append_cancel_right (same.symm.trans sameAgain)

end JsonQuery.Lexer

namespace JsonQuery.Grammar

/-! ## Steps behind steps -/

/-- Lexemes that go on from a step: a slash and further steps, or steps that begin with a descent
to a name. -/
inductive Continuation : List Lexeme → List Step → Prop
  | separated {text : List Lexeme} {steps : List Step} (spelled : StepsText text steps) :
      Continuation (.slash :: text) steps
  | descent {text : List Lexeme} {steps : List Step} (descends : text.head? = some .doubleSlash)
      (spelled : StepsText text steps) : Continuation text steps

theorem GroupText.continue {text rest : List Lexeme} {steps others : List Step}
    (group : GroupText text steps) (continuation : Continuation rest others) :
    StepsText (text ++ rest) (steps ++ others) := by
  cases continuation with
  | separated spelled => exact .separated group (.inl rfl) spelled
  | descent descends spelled => exact .adjoined group (.inl descends) spelled

/-- Whether further steps can stand directly behind the last lexeme. -/
def Extends (last : Option Lexeme) (rest : List Lexeme) : Prop :=
  last ≠ some .slash ∧ last ≠ some .dot ∧
    ¬(last = some .doubleDot ∧ rest.head? = some .doubleSlash)

theorem getLast?_append_cons {α : Type} (first last : List α) (item : α) :
    (first ++ item :: last).getLast? = (item :: last).getLast? := by
  rw [List.getLast?_append, List.getLast?_cons, Option.some_or]

theorem StepsText.continue {text rest : List Lexeme} {steps others : List Step}
    (spelled : StepsText text steps) (continuation : Continuation rest others) :
    text ≠ [] → Extends text.getLast? rest → StepsText (text ++ rest) (steps ++ others) := by
  induction spelled with
  | none => exact fun isText => absurd rfl isText
  | parent =>
      intro _ allowed
      cases continuation with
      | separated spelled => exact .parentBefore spelled
      | descent descends spelled => exact absurd ⟨rfl, descends⟩ allowed.2.2
  | @parentBefore text steps spelled induction =>
      intro _ allowed
      cases text with
      | nil => exact absurd rfl allowed.1
      | cons lexeme text =>
          rw [List.getLast?_cons_cons, List.getLast?_cons_cons] at allowed
          exact .parentBefore (induction nofun allowed)
  | last group => exact fun _ _ => group.continue continuation
  | @separated text behind separator steps others group isSeparator spelled induction =>
      intro _ allowed
      rw [getLast?_append_cons] at allowed
      rw [List.append_assoc, List.append_assoc]
      cases behind with
      | nil => rcases isSeparator with rfl | rfl
               · exact absurd rfl allowed.1
               · exact absurd rfl allowed.2.1
      | cons lexeme behind =>
          rw [List.getLast?_cons_cons] at allowed
          exact .separated group isSeparator (induction nofun allowed)
  | @adjoined text behind steps others group descends spelled induction =>
      intro _ allowed
      rw [List.append_assoc, List.append_assoc]
      cases behind with
      | nil => rcases descends with descends | descends <;> cases descends
      | cons lexeme behind =>
          rw [getLast?_append_cons] at allowed
          exact .adjoined group descends (induction nofun allowed)

/-- A path that begins with a slash goes on from the steps before it. -/
theorem QueryText.continuation {text : List Lexeme} {query : Query} (spelled : QueryText text query)
    (begins : text.head? = some .slash ∨ text.head? = some .doubleSlash) :
    Continuation text query.steps := by
  cases spelled with
  | @intro root separator text steps isRoot isSeparator spelled =>
      rcases isRoot with rfl | rfl
      · rcases isSeparator with rfl | rfl | rfl
        · have first := spelled.begins
          rcases begins with begins | begins
          · exact absurd rfl (first _ begins).2.1
          · exact .descent begins spelled
        · exact .separated spelled
        · rcases begins with begins | begins <;> cases begins
      · rcases begins with begins | begins <;> cases begins

theorem Continuation.query {root text : List Lexeme} {steps : List Step}
    (continuation : Continuation text steps) (isRoot : root = [] ∨ root = [.root]) :
    QueryText (root ++ text) ⟨steps⟩ := by
  cases continuation with
  | separated spelled => exact .intro isRoot (.inr (.inl rfl)) spelled
  | descent _ spelled => exact .intro isRoot (.inl rfl) spelled

theorem StepsText.eq_nil {steps : List Step} (spelled : StepsText [] steps) : steps = [] := by
  generalize same : ([] : List Lexeme) = text at spelled
  have absurd_group {text rest : List Lexeme} {steps : List Step} (group : GroupText text steps)
      (same : [] = text ++ rest) : False := by
    have nonempty := group.length_pos
    rw [(List.append_eq_nil_iff.mp same.symm).1] at nonempty
    cases nonempty
  cases spelled with
  | none => rfl
  | parent => cases same
  | parentBefore => cases same
  | last group => exact (absurd_group group (same.trans (List.append_nil _).symm)).elim
  | separated group => exact (absurd_group group same).elim
  | adjoined group => exact (absurd_group group same).elim

theorem QueryText.append {first last : List Lexeme} {query other : Query}
    (spelled : QueryText first query) (continuation : Continuation last other.steps)
    (allowed : Extends first.getLast? last) :
    QueryText (first ++ last) ⟨query.steps ++ other.steps⟩ := by
  cases spelled with
  | @intro root separator text steps isRoot isSeparator spelled =>
      cases text with
      | nil =>
          cases spelled.eq_nil
          have none : separator = [] := by
            rcases isSeparator with rfl | rfl | rfl
            · rfl
            · rw [List.append_nil, getLast?_append_cons] at allowed
              exact absurd rfl allowed.1
            · rw [List.append_nil, getLast?_append_cons] at allowed
              exact absurd rfl allowed.2.1
          rw [none, List.append_nil, List.append_nil]
          exact continuation.query isRoot
      | cons lexeme text =>
          rw [← List.append_assoc, getLast?_append_cons] at allowed
          rw [List.append_assoc, List.append_assoc]
          exact .intro isRoot isSeparator (spelled.continue continuation nofun allowed)

/-! ## Two dots before two slashes -/

section Inside

variable {text : List Lexeme}

theorem fieldName_ne {lexeme : Lexeme} {name : String}
    (isName : lexeme.fieldName? = some name) : .doubleDot ≠ lexeme := by
  rintro rfl
  cases isName

theorem SegmentsText.not_mem_doubleDot {segments : List Segment}
    (spelled : SegmentsText text segments) : .doubleDot ∉ text := by
  induction spelled with
  | nil => nofun
  | cons first others induction =>
      cases first with
      | dotted isName =>
          have different := fieldName_ne isName
          simp [different, induction]
      | quoted | index => simpa using induction

theorem not_mem_separatedBy {separator lexeme : Lexeme} (different : lexeme ≠ separator)
    {texts : List (List Lexeme)} (outside : ∀ text ∈ texts, lexeme ∉ text) :
    lexeme ∉ separatedBy separator texts := by
  cases texts with
  | nil => nofun
  | cons first others =>
      rcases List.forall_mem_cons.mp outside with ⟨notFirst, notOthers⟩
      simp only [separatedBy, List.mem_append, List.mem_flatMap, List.mem_cons, not_or, not_exists]
      exact ⟨notFirst, fun text there => there.2.elim different (notOthers text there.1)⟩

theorem OperandText.not_mem_doubleDot {value : Expression} (spelled : OperandText text value) :
    .doubleDot ∉ text := by
  induction spelled with
  | null | true | false | string | number => nofun
  | reference spelled => simpa using spelled.not_mem_doubleDot
  | call arguments _ induction =>
      have notComma : Lexeme.doubleDot ≠ .comma := nofun
      have outside := not_mem_separatedBy notComma (List.forall_mem_map.mpr induction)
      simpa using outside

theorem ConditionText.not_mem_doubleDot {level : Level} {value : Expression}
    (spelled : ConditionText level text value) : .doubleDot ∉ text := by
  induction spelled with
  | operand spelled => exact spelled.not_mem_doubleDot
  | @comparison _ _ lexeme _ _ _ left compares right =>
      have different : lexeme ≠ .doubleDot := by
        rintro rfl
        cases compares
      simp [left.not_mem_doubleDot, right.not_mem_doubleDot, different.symm]
  | not _ induction | group _ induction => simpa using induction
  | oneUnary _ induction | oneConjunction _ induction => exact induction
  | and _ _ left right | or _ _ left right => simp [left, right]

theorem BoundText.not_mem_doubleDot {bound : Option Int} (spelled : BoundText text bound) :
    .doubleDot ∉ text := by
  cases spelled <;> nofun

theorem BracketText.not_mem_doubleDot {bracket : Bracket} (spelled : BracketText text bracket) :
    .doubleDot ∉ text := by
  rcases spelled with ⟨content⟩
  cases content with
  | index spelled => simpa using spelled.not_mem_doubleDot
  | slice start stop => simp [start.not_mem_doubleDot, stop.not_mem_doubleDot]
  | wildcard | field => nofun
  | filter spelled => simpa using spelled.not_mem_doubleDot

theorem BracketsText.not_mem_doubleDot {brackets : List Bracket}
    (spelled : BracketsText text brackets) : .doubleDot ∉ text := by
  induction spelled with
  | nil => nofun
  | cons first _ induction => simp [first.not_mem_doubleDot, induction]

end Inside

/-- Two dots do not stand directly before two slashes. -/
def Adjoins (first second : Lexeme) : Prop :=
  first = .doubleDot → second ≠ .doubleSlash

theorem isChain_append {text rest : List Lexeme} (outside : .doubleDot ∉ text)
    (chain : rest.IsChain Adjoins) : (text ++ rest).IsChain Adjoins := by
  induction text with
  | nil => exact chain
  | cons lexeme text induction =>
      rw [List.mem_cons, not_or] at outside
      exact (induction outside.2).cons fun _ _ same => absurd same.symm outside.1

/-- The end of a step does not matter for what follows. -/
theorem GroupText.isChain_append {text rest : List Lexeme} {steps : List Step}
    (group : GroupText text steps) (chain : rest.IsChain Adjoins) :
    (text ++ rest).IsChain Adjoins := by
  rcases group with ⟨first, others⟩
  rw [List.append_assoc]
  have behind := Grammar.isChain_append others.not_mem_doubleDot chain
  cases first with
  | field isName =>
      exact behind.cons fun _ _ same => absurd same.symm (fieldName_ne isName)
  | wildcard => exact behind.cons nofun
  | recursive _ isName =>
      refine .cons_cons ?_ (behind.cons fun _ _ same => absurd same.symm (fieldName_ne isName))
      rintro _ rfl
      cases isName
  | bracket spelled => exact Grammar.isChain_append spelled.not_mem_doubleDot behind

theorem StepsText.isChain {text : List Lexeme} {steps : List Step}
    (spelled : StepsText text steps) : text.IsChain Adjoins := by
  induction spelled with
  | none => exact .nil
  | parent => exact .singleton _
  | parentBefore _ induction =>
      exact .cons_cons nofun (induction.cons nofun)
  | last group =>
      have chain := group.isChain_append .nil
      rwa [List.append_nil] at chain
  | separated group isSeparator _ induction =>
      refine group.isChain_append (induction.cons ?_)
      rcases isSeparator with rfl | rfl <;> nofun
  | adjoined group _ _ induction => exact group.isChain_append induction

theorem QueryText.isChain {text : List Lexeme} {query : Query} (spelled : QueryText text query) :
    text.IsChain Adjoins := by
  rcases spelled with ⟨rfl | rfl, rfl | rfl | rfl, spelled⟩
  · exact spelled.isChain
  · exact spelled.isChain.cons nofun
  · exact spelled.isChain.cons nofun
  · exact spelled.isChain.cons nofun
  · exact .cons_cons nofun (spelled.isChain.cons nofun)
  · exact .cons_cons nofun (spelled.isChain.cons nofun)

end JsonQuery.Grammar

namespace JsonQuery

/-- The lexeme before the end of a path. -/
def Lexer.lastLexeme? (path : String) : Option Lexeme :=
  match Lexer.tokenize path with
  | .ok tokens => (tokens.dropLast.getLast?).map Token.lexeme
  | .error _ => none

theorem Lexer.lastLexeme?_eq {path : String} {text : List Lexeme}
    (cut : Lexer.PathLexemes path.toList text) : Lexer.lastLexeme? path = text.getLast? := by
  rcases Lexer.tokenize_complete cut with ⟨tokens, read, same⟩
  have last : (lexemes tokens).dropLast.getLast? = text.getLast? := by
    rw [same, List.dropLast_concat]
  rw [Lexer.lastLexeme?, read]
  dsimp only
  rw [← List.getLast?_map, List.map_dropLast]
  exact last

/-- A path goes on with another one that begins with a slash, unless it ends in a separator of its
own. The one exception is a parent step at its end, which cannot stand before a descent. -/
theorem parse_append {path other : String} {query behind : Query}
    (read : Query.parse path = .ok query) (otherRead : Query.parse other = .ok behind)
    (slash : other.toList.head? = some '/')
    (notSlash : Lexer.lastLexeme? path ≠ some .slash)
    (notDot : Lexer.lastLexeme? path ≠ some .dot) :
    if Lexer.lastLexeme? path = some .doubleDot ∧ ['/', '/'] <+: other.toList
    then ∀ whole, Query.parse (path ++ other) ≠ .ok whole
    else Query.parse (path ++ other) = .ok ⟨query.steps ++ behind.steps⟩ := by
  rcases Query.parse_eq_ok_iff.mp read with ⟨first, firstCut, firstSpelled⟩
  rcases Query.parse_eq_ok_iff.mp otherRead with ⟨last, lastCut, lastSpelled⟩
  rcases List.head?_eq_some_iff.mp slash with ⟨rest, same⟩
  rw [Lexer.lastLexeme?_eq firstCut] at notSlash notDot ⊢
  rw [same] at lastCut ⊢
  have begins := lastCut.head_of_slash
  have cut := firstCut.append lastCut notSlash
  rw [← same, ← String.toList_append] at cut
  have double : ['/', '/'] <+: '/' :: rest ↔ rest.head? = some '/' := by
    cases rest <;> simp [eq_comm]
  split
  next both =>
    intro whole accepted
    rw [if_pos (double.mp both.2)] at begins
    rcases Query.parse_eq_ok_iff.mp accepted with ⟨text, wholeCut, wholeSpelled⟩
    rw [wholeCut.unique cut] at wholeSpelled
    exact (List.isChain_append.mp wholeSpelled.isChain).2.2 _ both.1 _ begins rfl rfl
  next apart =>
    refine Query.parse_eq_ok_iff.mpr ⟨first ++ last, cut, ?_⟩
    refine firstSpelled.append (lastSpelled.continuation ?_) ⟨notSlash, notDot, ?_⟩
    · rw [begins]
      split
      · exact .inr rfl
      · exact .inl rfl
    · rintro ⟨isParent, descends⟩
      rw [begins] at descends
      split at descends
      next descent => exact apart ⟨isParent, double.mpr descent⟩
      next => cases descends

theorem parse_append_descent :
    Query.parse ("$.a.*" ++ "//b") =
      .ok ⟨[⟨.field "a", []⟩, ⟨.wildcard, []⟩] ++ [⟨.recursive "b", []⟩]⟩ := by
  have read : Query.parse "$.a.*" = .ok ⟨[⟨.field "a", []⟩, ⟨.wildcard, []⟩]⟩ := rfl
  have otherRead : Query.parse "//b" = .ok ⟨[⟨.recursive "b", []⟩]⟩ := rfl
  have last : Lexer.lastLexeme? "$.a.*" = some .star := rfl
  have apart : ¬(Lexer.lastLexeme? "$.a.*" = some .doubleDot ∧ ['/', '/'] <+: "//b".toList) :=
    last ▸ nofun
  have composed := parse_append read otherRead rfl (last ▸ nofun) (last ▸ nofun)
  rwa [if_neg apart] at composed

/-- A parent step does not go on with a descent: two dots stand before one slash or the end. -/
theorem parse_append_parent_descent :
    Query.parse ".." = .ok ⟨[⟨.parent, []⟩]⟩ ∧
      Query.parse "//a" = .ok ⟨[⟨.recursive "a", []⟩]⟩ ∧
      "//a".toList.head? = some '/' ∧ Lexer.lastLexeme? ".." = some .doubleDot ∧
      ∀ query, Query.parse (".." ++ "//a") ≠ .ok query := by
  refine ⟨rfl, rfl, rfl, rfl, ?_⟩
  intro query accepted
  have refused : Query.parse (".." ++ "//a") =
      .error (.malformed "..//a" 2 "expected a field name after '..', found '//'") := by rfl
  rw [refused] at accepted
  cases accepted

end JsonQuery
