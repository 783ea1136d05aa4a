import JsonQuery.Proofs.Json.Reading
import JsonQuery.Proofs.Path.Layout
import JsonQuery.Proofs.Path.Parsing

/-!
Blanks between tokens mean nothing. Wherever an accepted path has no token in the way, blanks may
be put in, and `parse_insert_blanks` says that they leave the query as it is. A token looks at the
character behind it only to find its own end, which a blank ends as well. The one exception is a
dollar sign, which blanks turn from a name into the root, but not in a path that is accepted.
-/

namespace JsonQuery.Lexer

/-! ## Places inside tokens -/

def Crossed (position : Nat) (text : List Char) (tokens : List Token) (offset : Nat) : Prop :=
  ∃ token ∈ tokens, ∃ source, SpelledIn position text token source ∧
    token.position < offset ∧ offset < token.position + Utf8.width source

def InsideToken (path : String) (offset : Nat) : Prop :=
  ∃ tokens, tokenize path = .ok tokens ∧ Crossed 0 path.toList tokens offset

theorem Crossed.behind {position offset : Nat} (lead : List Char) {text : List Char}
    {tokens : List Token}
    (crossed : Crossed (position + Utf8.width lead) text tokens offset) :
    Crossed position (lead ++ text) tokens offset := by
  obtain ⟨token, member, source, spelledIn, across⟩ := crossed
  exact ⟨token, member, source, spelledIn.behind lead, across⟩

theorem Crossed.cons {position offset : Nat} {text : List Char} {tokens : List Token}
    (crossed : Crossed position text tokens offset) (token : Token) :
    Crossed position text (token :: tokens) offset := by
  obtain ⟨other, member, across⟩ := crossed
  exact ⟨other, List.mem_cons_of_mem token member, across⟩

theorem Crossed.behind_root {lead between after : List Char} {tokens : List Token}
    (crossed : Crossed (Utf8.width lead + 1) (between ++ after) tokens
      (Utf8.width lead + 1 + Utf8.width between)) :
    Crossed 0 (lead ++ '$' :: between ++ after) (⟨.root, Utf8.width lead⟩ :: tokens)
      (Utf8.width (lead ++ '$' :: between)) := by
  have start : Utf8.width lead + 1 = 0 + Utf8.width (lead ++ ['$']) := by
    rw [Utf8.width_append, Nat.zero_add]
    rfl
  rw [start] at crossed
  have moved := (crossed.behind (lead ++ ['$'])).cons ⟨.root, Utf8.width lead⟩
  simp only [Nat.zero_add, ← Utf8.width_append, List.append_assoc, List.cons_append,
    List.nil_append] at moved ⊢
  exact moved

/-! ## Cutting a text up in two parts -/

/-- The lexemes of a text are cut off up to where `after` begins, and from there on anew. -/
def Parted (depth : Nat) (text after : List Char) (found : List Lexeme) : Prop :=
  ∃ middle firsts lasts, found = firsts ++ lasts ++ [.finish] ∧
    Cuts middle after depth text firsts ∧ Cuts 0 [] middle after lasts

theorem Tokenizes.parted_start {depth position : Nat} {text : List Char} {found : List Token}
    (tokenizes : Tokenizes depth position text found) :
    Parted depth text text (lexemes found) := by
  obtain ⟨cut, spelled, cuts⟩ := tokenizes.cuts
  exact ⟨depth, [], cut, spelled, .done, cuts⟩

theorem Tokenizes.parted {depth position : Nat} {text : List Char} {found : List Token}
    (tokenizes : Tokenizes depth position text found) :
    ∀ {before after : List Char}, text = before ++ after →
      Crossed position text found (position + Utf8.width before) ∨
        Parted depth text after (lexemes found) := by
  induction tokenizes with
  | finish =>
      intro before after split
      obtain ⟨rfl, rfl⟩ := List.append_eq_nil_iff.mp split.symm
      exact .inr (parted_start .finish)
  | @blank depth position character text found isBlank others induction =>
      intro before after split
      cases before with
      | nil =>
          obtain rfl : _ = after := split
          exact .inr (parted_start (.blank isBlank others))
      | cons first before =>
          obtain ⟨rfl, rfl⟩ := List.cons.inj split
          rcases induction rfl with crossed | ⟨middle, firsts, lasts, same, first, last⟩
          · rw [Nat.add_assoc] at crossed
            exact .inl (crossed.behind [character])
          · exact .inr ⟨middle, firsts, lasts, same, .blank isBlank first, last⟩
  | @token depth position text cut found isCut ends others induction =>
      intro before after split
      have splits := cutAt?_splits isCut
      rcases splits.parted split with ⟨between, rfl, isRest⟩ | ⟨goesOn, isText, isSource, _⟩
      · rw [Utf8.width_append, ← Nat.add_assoc]
        rcases induction isRest with crossed | ⟨middle, firsts, lasts, same, front, last⟩
        · have behind := (crossed.behind cut.source).cons ⟨cut.lexeme, position⟩
          rw [← splits.split] at behind
          exact .inl behind
        · exact .inr ⟨middle, cut.lexeme :: firsts, lasts, congrArg (cut.lexeme :: ·) same,
            .token isCut ends front, last⟩
      · by_cases isStart : before = []
        · obtain rfl : text = after := by rw [split, isStart, List.nil_append]
          exact .inr (parted_start (.token isCut ends others))
        · have spelled := (cutAt?_sound isCut ends).spells splits.takes
          have begins := Utf8.width_pos isStart
          have continues := Utf8.width_pos isText
          refine .inl ⟨⟨cut.lexeme, position⟩, List.mem_cons_self, cut.source,
            ⟨spelled, [], cut.rest, splits.split, rfl⟩, ?_, ?_⟩
          · dsimp only
            omega
          · rw [isSource, Utf8.width_append]
            dsimp only
            omega

theorem Cuts.followed {stop depth : Nat} {rest text : List Char} {lexemes : List Lexeme}
    (cuts : Cuts stop rest depth text lexemes) : ∃ front, text = front ++ rest ∧
      ∀ other : List Char, (∀ next ∈ other.head?,
          rest.head? = some next ∨ Text.isBlank next = true) →
        Cuts stop other depth (front ++ other) lexemes := by
  induction cuts with
  | done => exact ⟨[], rfl, fun _ _ => .done⟩
  | @blank _ character _ _ isBlank _ induction =>
      obtain ⟨front, rfl, followed⟩ := induction
      exact ⟨character :: front, rfl, fun other begins => .blank isBlank (followed other begins)⟩
  | @token depth text cut lexemes found ends _ induction =>
      obtain ⟨front, same, followed⟩ := induction
      refine ⟨cut.source ++ front, ?_, fun other begins => ?_⟩
      · rw [List.append_assoc, ← same]
        exact (cutAt?_splits found).split
      · have follows : ∀ next ∈ (front ++ other).head?,
            cut.rest.head? = some next ∨ Parts cut.source next := by
          intro next head
          rw [same]
          cases front with
          | nil => exact (begins next head).imp_right fun isBlank => parts_blank isBlank _
          | cons first front => exact .inl head
        obtain ⟨foundThere, endsThere⟩ := cutAt?_followed found ends follows
        have token := Cuts.token foundThere endsThere (followed other begins)
        rwa [List.append_assoc]

theorem Cuts.behind {stop depth : Nat} {rest text blanks : List Char} {lexemes : List Lexeme}
    (areBlank : ∀ character ∈ blanks, Text.isBlank character = true)
    (cuts : Cuts stop rest depth text lexemes) :
    Cuts stop rest depth (blanks ++ text) lexemes := by
  induction blanks with
  | nil => exact cuts
  | cons first blanks induction =>
      obtain ⟨isBlank, areBlank⟩ := List.forall_mem_cons.mp areBlank
      exact .blank isBlank (induction areBlank)

theorem Cuts.insert {middle stop depth : Nat} {before blanks after rest : List Char}
    {firsts lasts : List Lexeme}
    (areBlank : ∀ character ∈ blanks, Text.isBlank character = true)
    (first : Cuts middle after depth (before ++ after) firsts)
    (last : Cuts stop rest middle after lasts) :
    Cuts stop rest depth (before ++ (blanks ++ after)) (firsts ++ lasts) := by
  obtain ⟨front, same, followed⟩ := first.followed
  obtain rfl := List.append_cancel_right same
  refine (followed (blanks ++ after) fun next head => ?_).append (last.behind areBlank)
  cases blanks with
  | nil => exact .inl head
  | cons blank blanks =>
      obtain rfl : blank = next := Option.some.inj head
      exact .inr (areBlank blank List.mem_cons_self)

/-! ## The root -/

theorem isSpace_of_isBlank {character : Char} (isBlank : Text.isBlank character = true) :
    Text.isSpace character = true := by
  simp only [Text.isBlank, Bool.or_eq_true, decide_eq_true_eq] at isBlank
  rcases isBlank with ((rfl | rfl) | rfl) | rfl <;> decide

theorem endsRoot_insert {blanks : List Char}
    (areBlank : ∀ character ∈ blanks, Text.isBlank character = true) {before after : List Char}
    (ends : endsRoot (before ++ after) = true) :
    endsRoot (before ++ (blanks ++ after)) = true := by
  cases before with
  | cons first before => exact ends
  | nil =>
      cases blanks with
      | nil => exact ends
      | cons blank blanks =>
          have isSpace := isSpace_of_isBlank (areBlank blank List.mem_cons_self)
          simp [endsRoot, isSpace]

theorem skipBlanks_append_eq (before after : List Char) : Text.skipBlanks (before ++ after) =
    if Text.skipBlanks before = [] then Text.skipBlanks after
    else Text.skipBlanks before ++ after := by
  unfold Text.skipBlanks
  rw [List.dropWhile_append]
  simp only [List.isEmpty_iff]

section Insertion

variable {before blanks after : List Char}
  (areBlank : ∀ character ∈ blanks, Text.isBlank character = true)

include areBlank

theorem afterRoot?_insert_marked {rest : List Char}
    (marked : afterRoot? (before ++ after) = some rest) :
    afterRoot? (before ++ (blanks ++ after)) = some rest ∨
      ∃ lead between, before = lead ++ '$' :: between ∧ rest = between ++ after ∧
        afterRoot? (before ++ (blanks ++ after)) = some (between ++ (blanks ++ after)) := by
  obtain ⟨skipped, ends⟩ := afterRoot?_eq_some.mp marked
  simp only [afterRoot?_eq_some]
  rw [skipBlanks_append_eq] at skipped ⊢
  rw [Json.skipBlanks_append areBlank]
  split at skipped
  next nothing =>
    rw [if_pos nothing]
    exact .inl ⟨skipped, ends⟩
  next something =>
    rw [if_neg something]
    cases left : Text.skipBlanks before with
    | nil => exact absurd left something
    | cons first between =>
        rw [left] at skipped
        obtain ⟨rfl, rfl⟩ := List.cons.inj skipped
        obtain ⟨lead, same, _⟩ := Json.exists_blanks before
        rw [left] at same
        exact .inr ⟨lead, between, same, rfl, rfl, endsRoot_insert areBlank ends⟩

theorem afterRoot?_insert_unmarked (unmarked : afterRoot? (before ++ after) = none) :
    afterRoot? (before ++ (blanks ++ after)) = none ∨
      ∃ lead, before = lead ++ ['$'] ∧ (∀ character ∈ lead, Text.isBlank character = true) ∧
        endsRoot after = false := by
  cases marked : afterRoot? (before ++ (blanks ++ after)) with
  | none => exact .inl rfl
  | some rest =>
      have unlike : ∀ rest, Text.skipBlanks (before ++ after) = '$' :: rest →
          endsRoot rest = false := by
        intro rest skipped
        rw [← Bool.not_eq_true]
        intro ends
        have same := unmarked.symm.trans (afterRoot?_eq_some.mpr ⟨skipped, ends⟩)
        cases same
      obtain ⟨skipped, ends⟩ := afterRoot?_eq_some.mp marked
      rw [skipBlanks_append_eq, Json.skipBlanks_append areBlank] at skipped
      rw [skipBlanks_append_eq] at unlike
      split at skipped
      next nothing =>
        rw [if_pos nothing] at unlike
        rw [unlike rest skipped] at ends
        cases ends
      next something =>
        rw [if_neg something] at unlike
        cases left : Text.skipBlanks before with
        | nil => exact absurd left something
        | cons first between =>
            rw [left] at skipped unlike
            obtain ⟨rfl, rfl⟩ := List.cons.inj skipped
            have unended := unlike (between ++ after) rfl
            cases between with
            | nil =>
                obtain ⟨lead, same, isLead⟩ := Json.exists_blanks before
                rw [left] at same
                exact .inr ⟨lead, same, isLead, unended⟩
            | cons next between =>
                have same : endsRoot (next :: between ++ after) = true := ends
                rw [same] at unended
                cases unended

end Insertion

/-! ## A dollar sign that is a name -/

theorem Cuts.of_blanks {stop depth : Nat} {rest text blanks : List Char} {lexemes : List Lexeme}
    (areBlank : ∀ character ∈ blanks, Text.isBlank character = true)
    (shorter : rest.length ≤ text.length)
    (cuts : Cuts stop rest depth (blanks ++ text) lexemes) :
    Cuts stop rest depth text lexemes := by
  induction blanks with
  | nil => exact cuts
  | cons first blanks induction =>
      obtain ⟨isBlank, areBlank⟩ := List.forall_mem_cons.mp areBlank
      generalize same : first :: blanks ++ text = whole at cuts
      cases cuts with
      | done =>
          have length := congrArg List.length same
          simp only [List.length_append, List.length_cons] at length
          omega
      | blank _ others =>
          obtain ⟨rfl, rfl⟩ := List.cons.inj same
          exact induction areBlank others
      | token found =>
          rw [← same, List.cons_append, cutAt?_blank isBlank] at found
          cases found

theorem TokenText.dollar {next : Option Char} {lexeme : Lexeme} {source : List Char}
    (spelled : TokenText 0 next lexeme source) (begins : source.head? = some '$') :
    (∃ name, lexeme = .name name) ∧ ∀ character ∈ next, isNameCharacter character = false := by
  cases spelled with
  | symbol isSymbol =>
      have different : ∀ symbol ∈ symbolsAt 0, symbol.text.toList.head? ≠ some '$' := by decide
      exact absurd begins (different lexeme isSymbol)
  | quoted isQuote =>
      obtain rfl : _ = '$' := Option.some.inj begins
      exact absurd isQuote (by decide)
  | name _ _ _ ends => exact ⟨⟨_, rfl⟩, ends⟩
  | number inside => exact absurd rfl inside
  | word inside => exact absurd rfl inside

theorem TokenText.joined {next : Option Char} {lexeme : Lexeme} {source : List Char}
    (spelled : TokenText 0 next lexeme source) (unended : endsRoot source = false)
    (notName : ∀ character ∈ source.head?, isNameCharacter character = false) :
    lexeme = .star ∨ ∃ content, lexeme = .quoted content := by
  cases spelled with
  | symbol isSymbol =>
      have ended : ∀ symbol ∈ symbolsAt 0,
          symbol = .star ∨ endsRoot symbol.text.toList = true := by decide
      refine (ended lexeme isSymbol).imp_right fun ends => ?_
      rw [ends] at unended
      cases unended
  | quoted => exact .inr ⟨_, rfl⟩
  | name _ isText plain =>
      cases source with
      | nil => exact absurd rfl isText
      | cons first others =>
          have isName := plain first List.mem_cons_self
          rw [notName first rfl] at isName
          cases isName
  | number inside => exact absurd rfl inside
  | word inside => exact absurd rfl inside

theorem Cuts.begins_joined {text : List Char} {lexemes : List Lexeme}
    (cuts : Cuts 0 [] 0 text lexemes) (unended : endsRoot text = false)
    (notName : ∀ character ∈ text.head?, isNameCharacter character = false) :
    ∃ lexeme others, lexemes = lexeme :: others ∧
      (lexeme = .star ∨ ∃ content, lexeme = .quoted content) := by
  cases cuts with
  | done => cases unended
  | blank isBlank => simp [endsRoot, isSpace_of_isBlank isBlank] at unended
  | @token _ _ cut lexemes found ends =>
      have splits := cutAt?_splits found
      have spelled := cutAt?_sound found ends
      refine ⟨cut.lexeme, lexemes, rfl, ?_⟩
      rw [splits.split] at unended notName
      cases isSource : cut.source with
      | nil => exact absurd isSource splits.takes
      | cons first others =>
          rw [isSource] at unended notName spelled
          exact spelled.joined unended notName

def NameJoined (lexemes : List Lexeme) : Prop :=
  ∃ name lexeme others, lexemes = .name name :: lexeme :: others ∧
    (lexeme = .star ∨ ∃ content, lexeme = .quoted content)

/-- A dollar sign that is cut off alone, but marks no root, is a name with no separator behind
it. -/
theorem Cuts.nameJoined {middle : Nat} {lead after : List Char} {firsts lasts : List Lexeme}
    (areBlank : ∀ character ∈ lead, Text.isBlank character = true)
    (first : Cuts middle after 0 (lead ++ '$' :: after) firsts)
    (last : Cuts 0 [] middle after lasts) (unended : endsRoot after = false) :
    NameJoined (firsts ++ lasts) := by
  have first := first.of_blanks areBlank (Nat.le_succ after.length)
  generalize same : '$' :: after = text at first
  cases first with
  | done => exact absurd same (List.cons_ne_self _ _)
  | blank isBlank =>
      obtain ⟨rfl, _⟩ := List.cons.inj same
      cases isBlank
  | @token _ _ cut lexemes found ends others =>
      have splits := cutAt?_splits found
      have spelled := cutAt?_sound found ends
      obtain ⟨front, isRest, _⟩ := others.followed
      have taken : ['$'] ++ after = cut.source ++ front ++ after := by
        rw [List.append_assoc, ← isRest]
        exact same.trans splits.split
      obtain ⟨isSource, rfl⟩ : cut.source = ['$'] ∧ front = [] := by
        have whole := List.append_cancel_right taken
        rcases List.singleton_eq_append_iff.mp whole with ⟨nothing, _⟩ | ⟨isSource, nothing⟩
        · exact absurd nothing splits.takes
        · exact ⟨isSource, nothing⟩
      rw [isSource, isRest] at spelled
      obtain ⟨⟨name, isName⟩, notName⟩ := spelled.dollar rfl
      rw [isRest, isName] at others
      have behind : Cuts 0 [] 0 after (lexemes ++ lasts) := others.append last
      obtain ⟨lexeme, tail, isTail, joined⟩ := behind.begins_joined unended notName
      refine ⟨name, lexeme, tail, ?_, joined⟩
      rw [isName, List.cons_append, isTail]

/-! ## Whole paths -/

/-- Blanks outside the tokens of a path leave its lexemes as they are, unless they make a mark of
the root of a name that something stands right behind. -/
theorem tokenize_insert {path : String} {tokens : List Token} {before blanks after : List Char}
    (read : tokenize path = .ok tokens) (split : path.toList = before ++ after)
    (outside : ¬InsideToken path (Utf8.width before))
    (areBlank : ∀ character ∈ blanks, Text.isBlank character = true) :
    (∃ cut, lexemes tokens = cut ++ [.finish] ∧
      PathLexemes (before ++ (blanks ++ after)) cut) ∨ NameJoined (lexemes tokens) := by
  have uncrossed : ¬Crossed 0 (before ++ after) tokens (Utf8.width before) :=
    fun crossed => outside ⟨tokens, read, split ▸ crossed⟩
  rw [tokenize_eq, split] at read
  split at read
  next rest marked =>
    obtain ⟨others, othersRead, same⟩ := bind_eq_ok.mp read
    cases same
    have tokenizes := tokens_sound othersRead
    rcases afterRoot?_insert_marked areBlank marked with
      markedThere | ⟨lead, between, rfl, rfl, markedThere⟩
    · obtain ⟨cut, spelled, cuts⟩ := tokenizes.cuts
      exact .inl ⟨.root :: cut, congrArg (Lexeme.root :: ·) spelled, .root markedThere cuts⟩
    · have isLead : lead = (lead ++ '$' :: between ++ after).takeWhile Text.isBlank := by
        have isPath := eq_of_afterRoot? marked
        nth_rewrite 1 [List.append_assoc] at isPath
        exact List.append_cancel_right isPath
      rw [← isLead] at tokenizes uncrossed
      rcases tokenizes.parted rfl with crossed | ⟨middle, firsts, lasts, same, first, last⟩
      · exact absurd crossed.behind_root uncrossed
      · exact .inl ⟨.root :: (firsts ++ lasts), congrArg (Lexeme.root :: ·) same,
          .root markedThere (first.insert areBlank last)⟩
  next unmarked =>
    rcases (tokens_sound read).parted rfl with crossed | ⟨middle, firsts, lasts, same, first, last⟩
    · rw [Nat.zero_add] at crossed
      exact absurd crossed uncrossed
    · rcases afterRoot?_insert_unmarked areBlank unmarked with
        unmarkedThere | ⟨lead, rfl, isLead, unended⟩
      · exact .inl ⟨firsts ++ lasts, same, .plain unmarkedThere (first.insert areBlank last)⟩
      · rw [List.append_assoc] at first
        obtain ⟨name, lexeme, tail, isTail, joined⟩ := first.nameJoined isLead last unended
        refine .inr ⟨name, lexeme, tail ++ [.finish], ?_, joined⟩
        rw [same, isTail]
        rfl

end JsonQuery.Lexer

namespace JsonQuery.Grammar

theorem readQuery_nameJoined {tokens : List Token}
    (joined : Lexer.NameJoined (Lexer.lexemes tokens)) (query : Query) :
    readQuery tokens ≠ .ok query := by
  obtain ⟨name, lexeme, others, same, isJoined⟩ := joined
  simp only [lexemes_eq_cons] at same
  obtain ⟨_, _, rfl, _, _, rfl, _⟩ := same
  rcases isJoined with rfl | ⟨content, rfl⟩ <;> exact nofun

end JsonQuery.Grammar

namespace JsonQuery

/-- Blanks between the tokens of an accepted path leave its query as it is. -/
theorem parse_insert_blanks {path : String} {query : Query} {before blanks after : List Char}
    (read : Query.parse path = .ok query) (split : path.toList = before ++ after)
    (outside : ¬Lexer.InsideToken path (Utf8.width before))
    (areBlank : ∀ character ∈ blanks, Text.isBlank character = true) :
    Query.parse (String.ofList (before ++ (blanks ++ after))) = .ok query := by
  obtain ⟨tokens, tokensRead, queryRead⟩ := Query.parse_eq_ok.mp read
  rcases Lexer.tokenize_insert tokensRead split outside areBlank with
    ⟨cut, same, spelled⟩ | joined
  · have isQuery := (Grammar.readQuery_eq_ok same spelled.not_mem_finish).mp queryRead
    refine Query.parse_eq_ok_iff.mpr ⟨cut, ?_, isQuery⟩
    rwa [String.toList_ofList]
  · exact absurd queryRead (Grammar.readQuery_nameJoined joined query)

theorem parse_insert_blanks_after_root :
    Query.parse "$.a" = .ok ⟨[⟨.field "a", []⟩]⟩ ∧ ¬Lexer.InsideToken "$.a" 1 ∧
      Query.parse "$ \n.a" = .ok ⟨[⟨.field "a", []⟩]⟩ := by
  have read : Query.parse "$.a" = .ok ⟨[⟨.field "a", []⟩]⟩ := by cbv
  have outside : ¬Lexer.InsideToken "$.a" 1 := by
    rintro ⟨tokens, cut, crossed⟩
    have tokensRead : Lexer.tokenize "$.a" = .ok [⟨.root, 0⟩, ⟨.dot, 1⟩, ⟨.name "a", 2⟩,
        ⟨.finish, 3⟩] := by cbv
    obtain rfl := Except.ok.inj (tokensRead.symm.trans cut)
    obtain ⟨token, member, source, ⟨spelled, _⟩, begins, ends⟩ := crossed
    simp only [List.mem_cons, List.not_mem_nil, or_false] at member
    rcases member with rfl | rfl | rfl | rfl
    · cases spelled
      exact absurd ends (by decide)
    all_goals exact absurd begins (by decide)
  have areBlank : ∀ character ∈ [' ', '\n'], Text.isBlank character = true := by
    simp [Text.isBlank]
  have inserted : Query.parse (String.ofList (['$'] ++ ([' ', '\n'] ++ ['.', 'a']))) =
      .ok ⟨[⟨.field "a", []⟩]⟩ := parse_insert_blanks read rfl outside areBlank
  exact ⟨read, outside, inserted⟩

end JsonQuery
