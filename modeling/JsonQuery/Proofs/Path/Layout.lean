import JsonQuery.Proofs.Path.Tokens
import JsonQuery.Proofs.Text.Utf8

/-!
How the tokens of a path lie in its text. `tokenize_faithful` says that nothing is lost and nothing
made up: the tokens stand in order, each spelled where it stands, with nothing but blanks around
them, and brackets decide which kinds of tokens may stand where.
-/

namespace JsonQuery.Lexer

/-! ## Spellings in their places -/

/-- How a lexeme is written: a string in its quotes and with its escapes, all else as it reads. The
mark of the end is not written. -/
inductive Spells : Lexeme → List Char → Prop
  | quoted {quote : Char} {text content : List Char} (isQuote : quote = '\'' ∨ quote = '"')
      (spelled : SpellsContent quote text content) :
      Spells (.quoted (String.ofList content)) (quote :: (text ++ [quote]))
  | plain {lexeme : Lexeme} (notQuoted : ∀ content, lexeme ≠ .quoted content)
      (isText : lexeme.text.toList ≠ []) : Spells lexeme lexeme.text.toList

structure SpelledIn (position : Nat) (text : List Char) (token : Token) (source : List Char) :
    Prop where
  spelled : Spells token.lexeme source
  stands : ∃ before after, text = before ++ (source ++ after) ∧
    token.position = position + Utf8.width before

/-- A text from byte `position` on and its tokens: blanks before each token, the token's spelling
behind them, and the mark of the end behind the last blanks. -/
inductive LaidOut : (position : Nat) → List Char → List Token → Prop
  | finish {position : Nat} {blanks : List Char}
      (areBlank : ∀ character ∈ blanks, Text.isBlank character = true) :
      LaidOut position blanks [⟨.finish, position + Utf8.width blanks⟩]
  | token {position : Nat} {blanks source rest : List Char} {lexeme : Lexeme}
      {tokens : List Token} (areBlank : ∀ character ∈ blanks, Text.isBlank character = true)
      (spelled : Spells lexeme source)
      (others : LaidOut (position + Utf8.width (blanks ++ source)) rest tokens) :
      LaidOut position (blanks ++ (source ++ rest))
        (⟨lexeme, position + Utf8.width blanks⟩ :: tokens)

/-! ## Kinds of tokens and brackets -/

def isPathOnly : Lexeme → Bool
  | .slash | .doubleSlash | .doubleDot => true
  | _ => false

def isFilterOnly : Lexeme → Bool
  | .closeBracket | .number _ | .trueWord | .falseWord | .nullWord => true
  | .equal | .notEqual | .less | .lessOrEqual | .greater | .greaterOrEqual => true
  | .and | .or | .not => true
  | .openParenthesis | .closeParenthesis | .colon | .comma | .question | .current => true
  | _ => false

structure PlacedAt (depth : Nat) (lexeme : Lexeme) : Prop where
  outside : isPathOnly lexeme = true → depth = 0
  inside : isFilterOnly lexeme = true → depth ≠ 0

structure Faithful (path : String) (tokens : List Token) : Prop where
  laidOut : LaidOut 0 path.toList tokens
  spelled : ∀ token ∈ tokens, token.lexeme ≠ .finish →
    ∃ source, source ≠ [] ∧ SpelledIn 0 path.toList token source
  increasing : tokens.Pairwise fun earlier later => earlier.position < later.position
  ends : ∃ others, tokens = others ++ [⟨.finish, Utf8.width path.toList⟩] ∧
    .finish ∉ lexemes others
  rootFirst : .root ∉ (lexemes tokens).tail
  nested : ∀ before after, lexemes tokens = before ++ after →
    before.count .closeBracket ≤ before.count .openBracket
  balanced : (lexemes tokens).count .closeBracket = (lexemes tokens).count .openBracket
  placed : ∀ before lexeme after, lexemes tokens = before ++ lexeme :: after →
    PlacedAt (before.count .openBracket - before.count .closeBracket) lexeme

/-! ## The layout that the tokenizer finds -/

theorem TokenText.spells {depth : Nat} {next : Option Char} {lexeme : Lexeme}
    {source : List Char} (spelled : TokenText depth next lexeme source) (isText : source ≠ []) :
    Spells lexeme source := by
  have plain (notQuoted : ∀ content, lexeme ≠ .quoted content) : Spells lexeme source := by
    have same := spelled.source_eq notQuoted
    rw [same] at isText ⊢
    exact .plain notQuoted isText
  cases spelled with
  | symbol isSymbol => exact plain fun content => (symbolsAt_plain depth _ isSymbol content).2
  | quoted isQuote spelled => exact .quoted isQuote spelled
  | name | number => exact plain nofun
  | word => exact plain fun content => (word_plain _ content).2

theorem LaidOut.blank {character : Char} (isBlank : Text.isBlank character = true)
    {position : Nat} {text : List Char} {tokens : List Token}
    (laidOut : LaidOut (position + character.utf8Size) text tokens) :
    LaidOut position (character :: text) tokens := by
  cases laidOut with
  | finish areBlank =>
      rw [Nat.add_assoc]
      exact .finish (List.forall_mem_cons.mpr ⟨isBlank, areBlank⟩)
  | token areBlank spelled others =>
      rw [Nat.add_assoc] at others ⊢
      exact .token (List.forall_mem_cons.mpr ⟨isBlank, areBlank⟩) spelled others

theorem Tokenizes.laidOut {depth position : Nat} {text : List Char} {found : List Token}
    (tokenizes : Tokenizes depth position text found) : LaidOut position text found := by
  induction tokenizes with
  | finish => exact .finish (List.forall_mem_nil _)
  | blank isBlank _ induction => exact induction.blank isBlank
  | @token _ position _ cut _ isCut ends _ induction =>
      have splits := cutAt?_splits isCut
      have spelled := (cutAt?_sound isCut ends).spells splits.takes
      have laidOut : LaidOut position ([] ++ (cut.source ++ cut.rest)) _ :=
        .token (List.forall_mem_nil _) spelled induction
      rw [splits.split]
      exact laidOut

theorem eq_of_afterRoot? {text rest : List Char} (marked : afterRoot? text = some rest) :
    text = text.takeWhile Text.isBlank ++ (['$'] ++ rest) := by
  obtain ⟨skipped, _⟩ := afterRoot?_eq_some.mp marked
  rw [List.singleton_append, ← skipped]
  exact List.takeWhile_append_dropWhile.symm

theorem tokenize_laidOut {path : String} {tokens : List Token}
    (read : tokenize path = .ok tokens) : LaidOut 0 path.toList tokens := by
  rw [tokenize_eq] at read
  split at read
  next rest marked =>
    rcases bind_eq_ok.mp read with ⟨others, othersRead, same⟩
    cases same
    have areBlank : ∀ character ∈ path.toList.takeWhile Text.isBlank,
        Text.isBlank character = true := List.all_eq_true.mp List.all_takeWhile
    have spelled : Spells .root ['$'] := .plain nofun nofun
    have width : 0 + Utf8.width (path.toList.takeWhile Text.isBlank ++ ['$']) =
        Utf8.width (path.toList.takeWhile Text.isBlank) + 1 := by
      rw [Nat.zero_add, Utf8.width_append]
      rfl
    have laidOut := LaidOut.token areBlank spelled (width ▸ (tokens_sound othersRead).laidOut)
    rwa [← eq_of_afterRoot? marked, Nat.zero_add] at laidOut
  next => exact (tokens_sound read).laidOut

/-! ## Positions -/

theorem Spells.ne_nil {lexeme : Lexeme} {source : List Char} (spelled : Spells lexeme source) :
    source ≠ [] := by
  cases spelled with
  | quoted => nofun
  | plain _ isText => exact isText

theorem Spells.ne_finish {lexeme : Lexeme} {source : List Char} (spelled : Spells lexeme source) :
    lexeme ≠ .finish := by
  rintro rfl
  cases spelled with
  | plain _ isText => exact isText rfl

theorem SpelledIn.behind {position : Nat} {text source : List Char} {token : Token}
    (lead : List Char) (spelledIn : SpelledIn (position + Utf8.width lead) text token source) :
    SpelledIn position (lead ++ text) token source := by
  obtain ⟨spelled, before, after, rfl, stands⟩ := spelledIn
  refine ⟨spelled, lead ++ before, after, (List.append_assoc _ _ _).symm, ?_⟩
  rw [stands, Utf8.width_append, Nat.add_assoc]

namespace LaidOut

variable {position : Nat} {text : List Char} {tokens : List Token}

theorem spelledIn (laidOut : LaidOut position text tokens) :
    ∀ token ∈ tokens, token.lexeme ≠ .finish → ∃ source, SpelledIn position text token source := by
  induction laidOut with
  | finish =>
      intro token member written
      rw [List.mem_singleton.mp member] at written
      exact absurd rfl written
  | @token position blanks source rest lexeme tokens _ spelled _ induction =>
      intro token member written
      rcases List.mem_cons.mp member with rfl | member
      · exact ⟨source, spelled, blanks, rest, rfl, rfl⟩
      · obtain ⟨inner, innerSpelled⟩ := induction token member written
        rw [← List.append_assoc]
        exact ⟨inner, innerSpelled.behind (blanks ++ source)⟩

theorem increasing (laidOut : LaidOut position text tokens) :
    (∀ token ∈ tokens, position ≤ token.position) ∧
      tokens.Pairwise fun earlier later => earlier.position < later.position := by
  induction laidOut with
  | finish =>
      refine ⟨List.forall_mem_singleton.mpr (Nat.le_add_right _ _), List.pairwise_singleton _ _⟩
  | @token position blanks source rest lexeme tokens _ spelled _ induction =>
      obtain ⟨behind, ordered⟩ := induction
      have isText := Utf8.width_pos spelled.ne_nil
      rw [Utf8.width_append] at behind
      constructor
      · refine List.forall_mem_cons.mpr ⟨Nat.le_add_right _ _, fun token member => ?_⟩
        have := behind token member
        omega
      · refine List.pairwise_cons.mpr ⟨fun token member => ?_, ordered⟩
        have := behind token member
        dsimp only
        omega

theorem ends (laidOut : LaidOut position text tokens) :
    ∃ others, tokens = others ++ [⟨.finish, position + Utf8.width text⟩] ∧
      .finish ∉ lexemes others := by
  induction laidOut with
  | finish => exact ⟨[], rfl, List.not_mem_nil⟩
  | @token position blanks source rest lexeme tokens _ spelled _ induction =>
      obtain ⟨others, same, unmarked⟩ := induction
      refine ⟨⟨lexeme, position + Utf8.width blanks⟩ :: others, ?_, ?_⟩
      · simp only [same, Utf8.width_append, Nat.add_assoc, List.cons_append]
      · exact List.not_mem_cons_of_ne_of_not_mem spelled.ne_finish.symm unmarked

end LaidOut

/-! ## Brackets -/

theorem symbolsAt_placed (depth : Nat) : ∀ symbol ∈ symbolsAt depth,
    PlacedAt depth symbol ∧ symbol ≠ .root := by
  unfold symbolsAt
  split
  next outside =>
    have plain : ∀ symbol ∈ pathSymbols, isFilterOnly symbol = false ∧ symbol ≠ .root := by decide
    intro symbol isSymbol
    have ⟨notFilter, notRoot⟩ := plain symbol isSymbol
    exact ⟨⟨fun _ => outside, fun isFilter => absurd isFilter (ne_true_of_eq_false notFilter)⟩,
      notRoot⟩
  next inside =>
    have plain : ∀ symbol ∈ filterSymbols, isPathOnly symbol = false ∧ symbol ≠ .root := by decide
    intro symbol isSymbol
    have ⟨notPath, notRoot⟩ := plain symbol isSymbol
    exact ⟨⟨fun isPath => absurd isPath (ne_true_of_eq_false notPath), fun _ => inside⟩, notRoot⟩

theorem word_notPath (text : String) : isPathOnly (word text) = false ∧ word text ≠ .root := by
  unfold word
  repeat' split
  all_goals exact ⟨rfl, nofun⟩

theorem TokenText.placed {depth : Nat} {next : Option Char} {lexeme : Lexeme}
    {source : List Char} (spelled : TokenText depth next lexeme source) :
    PlacedAt depth lexeme ∧ lexeme ≠ .root := by
  cases spelled with
  | symbol isSymbol => exact symbolsAt_placed depth _ isSymbol
  | quoted | name => exact ⟨⟨nofun, nofun⟩, nofun⟩
  | number inside => exact ⟨⟨nofun, fun _ => inside⟩, nofun⟩
  | @word first others inside =>
      have ⟨notPath, notRoot⟩ := word_notPath (String.ofList (first :: others))
      exact ⟨⟨fun isPath => absurd isPath (ne_true_of_eq_false notPath), fun _ => inside⟩, notRoot⟩

def Nested : (depth : Nat) → List Lexeme → Prop
  | depth, [] => depth = 0
  | depth, lexeme :: others => PlacedAt depth lexeme ∧ Nested (depthAfter depth lexeme) others

theorem Cuts.nested {stop depth : Nat} {rest text : List Char} {lexemes : List Lexeme}
    (cuts : Cuts stop rest depth text lexemes) (outside : stop = 0) :
    Nested depth (lexemes ++ [.finish]) := by
  induction cuts with
  | done => exact ⟨⟨nofun, nofun⟩, outside⟩
  | blank _ _ induction => exact induction
  | token found ends _ induction => exact ⟨(cutAt?_sound found ends).placed.1, induction⟩

theorem Cuts.not_mem_root {stop depth : Nat} {rest text : List Char} {lexemes : List Lexeme}
    (cuts : Cuts stop rest depth text lexemes) : Lexeme.root ∉ lexemes := by
  induction cuts with
  | done => exact List.not_mem_nil
  | blank _ _ induction => exact induction
  | token found ends _ induction =>
      rw [List.mem_cons, not_or]
      exact ⟨(cutAt?_sound found ends).placed.2.symm, induction⟩

theorem depthAfter_add {depth : Nat} {lexeme : Lexeme} (placed : PlacedAt depth lexeme) :
    depthAfter depth lexeme + [lexeme].count .closeBracket =
      depth + [lexeme].count .openBracket := by
  cases lexeme with
  | closeBracket => exact Nat.succ_pred_eq_of_ne_zero (placed.inside rfl)
  | _ => rfl

/-- Where lexemes nest, those at the front close no more brackets than they open, and the others
nest in the brackets that are left open. -/
theorem Nested.split {before after : List Lexeme} :
    ∀ {depth : Nat}, Nested depth (before ++ after) →
      before.count .closeBracket ≤ depth + before.count .openBracket ∧
        Nested (depth + before.count .openBracket - before.count .closeBracket) after := by
  induction before with
  | nil => exact fun nested => ⟨Nat.zero_le _, nested⟩
  | cons lexeme before induction =>
      intro depth nested
      obtain ⟨placed, others⟩ := nested
      obtain ⟨enough, nested⟩ := induction others
      have step := depthAfter_add placed
      rw [← List.singleton_append, List.count_append, List.count_append]
      have same : depth + ([lexeme].count .openBracket + before.count .openBracket) -
          ([lexeme].count .closeBracket + before.count .closeBracket) =
            depthAfter depth lexeme + before.count .openBracket -
              before.count .closeBracket := by omega
      rw [same]
      exact ⟨by omega, nested⟩

theorem tokenize_nested {path : String} {tokens : List Token} (read : tokenize path = .ok tokens) :
    Nested 0 (lexemes tokens) ∧ .root ∉ (lexemes tokens).tail := by
  obtain ⟨cut, same, spelled⟩ := tokenize_sound read
  rw [same]
  cases spelled with
  | root _ cuts =>
      refine ⟨⟨⟨nofun, nofun⟩, cuts.nested rfl⟩, ?_⟩
      simp [cuts.not_mem_root]
  | plain _ cuts =>
      refine ⟨cuts.nested rfl, fun member => ?_⟩
      have member := List.mem_of_mem_tail member
      simp [cuts.not_mem_root] at member

theorem tokenize_faithful {path : String} {tokens : List Token}
    (read : tokenize path = .ok tokens) : Faithful path tokens := by
  have laidOut := tokenize_laidOut read
  obtain ⟨nested, rootFirst⟩ := tokenize_nested read
  have ends := laidOut.ends
  rw [Nat.zero_add] at ends
  refine ⟨laidOut, ?_, laidOut.increasing.2, ends, rootFirst, ?_, ?_, ?_⟩
  · intro token member written
    obtain ⟨source, spelledIn⟩ := laidOut.spelledIn token member written
    exact ⟨source, spelledIn.spelled.ne_nil, spelledIn⟩
  · intro before after same
    rw [same] at nested
    have enough := nested.split.1
    rwa [Nat.zero_add] at enough
  · rw [← List.append_nil (lexemes tokens)] at nested
    obtain ⟨enough, closed⟩ := nested.split
    have closed : 0 + _ - _ = 0 := closed
    omega
  · intro before lexeme after same
    rw [same] at nested
    have placed := nested.split.2.1
    rwa [Nat.zero_add] at placed

theorem tokenize_faithful_accented :
    Faithful "$ //é[?('it\\'s' != @)]" [⟨.root, 0⟩, ⟨.doubleSlash, 2⟩, ⟨.name "é", 4⟩,
      ⟨.openBracket, 6⟩, ⟨.question, 7⟩, ⟨.openParenthesis, 8⟩, ⟨.quoted "it's", 9⟩,
      ⟨.notEqual, 17⟩, ⟨.current, 20⟩, ⟨.closeParenthesis, 21⟩, ⟨.closeBracket, 22⟩,
      ⟨.finish, 23⟩] := by
  apply tokenize_faithful
  cbv

end JsonQuery.Lexer
