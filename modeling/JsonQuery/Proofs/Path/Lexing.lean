import JsonQuery.Path.Lexer
import JsonQuery.Proofs.Outcome

/-!
How a text is cut into lexemes, stated as a relation beside the tokenizer and without positions,
budgets and complaints. A text is accepted exactly if the relation cuts it up.
-/

namespace JsonQuery.Lexer

/-! ## Cuts -/

/-- A cut takes at least one character off the front of a text, and is not the mark of its end. -/
structure Splits (text : List Char) (cut : Cut) : Prop where
  split : text = cut.source ++ cut.rest
  takes : cut.source ≠ []
  notFinish : cut.lexeme ≠ .finish

/-- Where a text is parted, a cut off its front has ended, or it goes on across. -/
theorem Splits.parted {text before after : List Char} {cut : Cut} (splits : Splits text cut)
    (split : text = before ++ after) :
    (∃ between, before = cut.source ++ between ∧ cut.rest = between ++ after) ∨
      ∃ others, others ≠ [] ∧ cut.source = before ++ others ∧ after = others ++ cut.rest := by
  rcases List.append_eq_append_iff.mp (splits.split.symm.trans split) with
    ended | ⟨others, isSource, isAfter⟩
  · exact .inl ended
  · cases others with
    | nil => exact .inl ⟨[], by rw [isSource, List.append_nil, List.append_nil], isAfter.symm⟩
    | cons next others => exact .inr ⟨next :: others, List.cons_ne_nil _ _, isSource, isAfter⟩

theorem symbol?_splits {symbols : List Lexeme} {text : List Char} {cut : Cut}
    (spelled : ∀ lexeme ∈ symbols, lexeme.text.toList ≠ [])
    (found : symbol? symbols text = some cut) : Splits text cut := by
  rcases Option.map_eq_some_iff.mp found with ⟨lexeme, chosen, rfl⟩
  have isPrefix := List.find?_some chosen
  have begins : lexeme.text.toList <+: text := List.isPrefixOf_iff_prefix.mp isPrefix
  have isSpelled := spelled lexeme (List.mem_of_find?_eq_some chosen)
  refine ⟨(List.prefix_iff_eq_append.mp begins).symm, isSpelled, ?_⟩
  rintro rfl
  exact isSpelled rfl

theorem quotedBody?_splits {quote : Char} (text : List Char) :
    ∀ {content source rest : List Char}, quotedBody? quote text = some (content, source, rest) →
      text = source ++ rest := by
  fun_induction quotedBody? quote text with
  | case1 => nofun
  | case2 => nofun
  | case3 escaped text induction =>
      intro content source rest read
      rcases Option.bind_eq_some_iff.mp read with ⟨⟨_, _, _⟩, body, same⟩
      cases same
      rw [induction body]
      rfl
  | case4 =>
      intro content source rest read
      cases read
      rfl
  | case5 character text notEscape notQuote induction =>
      intro content source rest read
      rcases Option.bind_eq_some_iff.mp read with ⟨⟨_, _, _⟩, body, same⟩
      cases same
      rw [induction body]
      rfl

theorem quoted?_splits {text : List Char} {cut : Cut} (found : quoted? text = some cut) :
    Splits text cut := by
  cases text with
  | nil => cases found
  | cons quote text =>
      rw [quoted?] at found
      split at found
      next =>
        rcases Option.bind_eq_some_iff.mp found with ⟨⟨content, source, rest⟩, body, same⟩
        cases same
        exact ⟨congrArg (quote :: ·) (quotedBody?_splits text body), nofun, nofun⟩
      next => cases found

theorem bareName?_splits {text : List Char} {cut : Cut} (found : bareName? text = some cut) :
    Splits text cut := by
  rw [bareName?] at found
  split at found
  next => cases found
  next source isSome =>
    cases found
    exact ⟨List.takeWhile_append_dropWhile.symm, isSome, nofun⟩

theorem word_ne_finish (text : String) : word text ≠ .finish := by
  unfold word
  repeat' split
  all_goals nofun

theorem identifier?_splits {text : List Char} {cut : Cut} (found : identifier? text = some cut) :
    Splits text cut := by
  cases text with
  | nil => cases found
  | cons first text =>
      rw [identifier?] at found
      split at found
      next =>
        cases found
        exact ⟨congrArg (first :: ·) List.takeWhile_append_dropWhile.symm, nofun,
          word_ne_finish _⟩
      next => cases found

theorem fraction_append (text : List Char) : (fraction text).1 ++ (fraction text).2 = text := by
  unfold fraction
  split
  · split
    next => rfl
    next digits isSome => exact congrArg ('.' :: ·) List.takeWhile_append_dropWhile
  · rfl

theorem sign_append (text : List Char) : (sign text).1 ++ (sign text).2 = text := by
  unfold sign
  split <;> rfl

theorem exponent_append (text : List Char) : (exponent text).1 ++ (exponent text).2 = text := by
  cases text with
  | nil => rfl
  | cons mark text =>
      have signed := sign_append text
      rw [exponent]
      split
      · dsimp only
        split
        next => rfl
        next =>
          show mark :: ((sign text).1 ++ List.takeWhile Char.isDigit (sign text).2) ++ _ = _
          rw [List.cons_append, List.append_assoc, List.takeWhile_append_dropWhile, signed]
      · rfl

/-- Cuts off a minus sign, if there is one. -/
def minus : List Char → List Char × List Char
  | '-' :: text => (['-'], text)
  | text => ([], text)

theorem minus_append (text : List Char) : (minus text).1 ++ (minus text).2 = text := by
  unfold minus
  split <;> rfl

theorem number?_eq (text : List Char) : number? text =
    let (minus, text) := minus text
    match text.takeWhile Char.isDigit with
    | [] => none
    | whole =>
      let (fraction, text) := fraction (text.dropWhile Char.isDigit)
      let (exponent, rest) := exponent text
      let source := minus ++ whole ++ fraction ++ exponent
      some ⟨.number (String.ofList source), source, rest⟩ := rfl

theorem number?_splits {text : List Char} {cut : Cut} (found : number? text = some cut) :
    Splits text cut := by
  rw [number?_eq] at found
  dsimp only at found
  split at found
  next => cases found
  next whole isSome =>
    cases found
    refine ⟨?_, ?_, nofun⟩
    · dsimp only
      simp only [List.append_assoc, exponent_append, fraction_append,
        List.takeWhile_append_dropWhile, minus_append]
    · simp only [ne_eq, List.append_eq_nil_iff, not_and]
      intro nothing
      exact (isSome nothing.1.2).elim

theorem pathCut?_eq (text : List Char) :
    pathCut? text = (symbol? pathSymbols text).or ((quoted? text).or (bareName? text)) := by
  simp only [pathCut?, Option.orElse_eq_orElse, Option.orElse_eq_or]

theorem filterCut?_eq (text : List Char) :
    filterCut? text = (symbol? filterSymbols text).or
      ((number? text).or ((quoted? text).or (identifier? text))) := by
  simp only [filterCut?, Option.orElse_eq_orElse, Option.orElse_eq_or]

theorem pathCut?_splits {text : List Char} {cut : Cut} (found : pathCut? text = some cut) :
    Splits text cut := by
  simp only [pathCut?_eq, Option.or_eq_some_iff] at found
  rcases found with found | ⟨_, found | ⟨_, found⟩⟩
  · exact symbol?_splits (by decide) found
  · exact quoted?_splits found
  · exact bareName?_splits found

theorem filterCut?_splits {text : List Char} {cut : Cut} (found : filterCut? text = some cut) :
    Splits text cut := by
  simp only [filterCut?_eq, Option.or_eq_some_iff] at found
  rcases found with found | ⟨_, found | ⟨_, found | ⟨_, found⟩⟩⟩
  · exact symbol?_splits (by decide) found
  · exact number?_splits found
  · exact quoted?_splits found
  · exact identifier?_splits found

/-- Cuts off a token inside `depth` open brackets. -/
def cutAt? (depth : Nat) (text : List Char) : Option Cut :=
  if depth = 0 then pathCut? text else filterCut? text

theorem cutAt?_splits {depth : Nat} {text : List Char} {cut : Cut}
    (found : cutAt? depth text = some cut) : Splits text cut := by
  unfold cutAt? at found
  split at found
  · exact pathCut?_splits found
  · exact filterCut?_splits found

/-- No token begins with a blank. -/
theorem cutAt?_blank {character : Char} (isBlank : Text.isBlank character = true) (depth : Nat)
    (text : List Char) : cutAt? depth (character :: text) = none := by
  simp only [Text.isBlank, Bool.or_eq_true, decide_eq_true_eq] at isBlank
  unfold cutAt?
  rcases isBlank with ((rfl | rfl) | rfl) | rfl <;> split <;> rfl

/-! ## Cutting a text up -/

/-- The lexemes cut off a text on the way from one number of open brackets and one rest of the
text to another. A token is cut off with all the text after it in sight. -/
inductive Cuts (stop : Nat) (rest : List Char) : Nat → List Char → List Lexeme → Prop
  | done : Cuts stop rest stop rest []
  | blank {depth : Nat} {character : Char} {text : List Char} {lexemes : List Lexeme}
      (isBlank : Text.isBlank character = true) (others : Cuts stop rest depth text lexemes) :
      Cuts stop rest depth (character :: text) lexemes
  | token {depth : Nat} {text : List Char} {cut : Cut} {lexemes : List Lexeme}
      (found : cutAt? depth text = some cut) (ends : runsOn? cut = none)
      (others : Cuts stop rest (depthAfter depth cut.lexeme) cut.rest lexemes) :
      Cuts stop rest depth text (cut.lexeme :: lexemes)

namespace Cuts

theorem append {middle stop : Nat} {after rest : List Char} {depth : Nat} {text : List Char}
    {firsts lasts : List Lexeme} (first : Cuts middle after depth text firsts)
    (last : Cuts stop rest middle after lasts) :
    Cuts stop rest depth text (firsts ++ lasts) := by
  induction first with
  | done => exact last
  | blank isBlank _ induction => exact .blank isBlank induction
  | token found ends _ induction => exact .token found ends induction

theorem not_mem_finish {stop : Nat} {rest : List Char} {depth : Nat} {text : List Char}
    {lexemes : List Lexeme} (cuts : Cuts stop rest depth text lexemes) :
    Lexeme.finish ∉ lexemes := by
  induction cuts with
  | done => exact List.not_mem_nil
  | blank _ _ induction => exact induction
  | token found _ _ induction =>
      rw [List.mem_cons, not_or]
      exact ⟨Ne.symm (cutAt?_splits found).notFinish, induction⟩

end Cuts

/-! ## The tokenizer -/

/-- The lexemes of tokens. -/
abbrev lexemes (tokens : List Token) : List Lexeme := tokens.map Token.lexeme

theorem tokens_nil (budget depth position : Nat) :
    tokens budget depth position [] =
      if depth = 0 then .ok [⟨.finish, position⟩]
      else .error ⟨position, .unmatchedOpening⟩ := by
  cases budget <;> rfl

theorem tokens_skip {character : Char} (isBlank : Text.isBlank character = true)
    (budget depth position : Nat) (text : List Char) :
    tokens budget depth position (character :: text) =
      tokens budget depth (position + character.utf8Size) text := by
  have skipped : Text.skipBlanks (character :: text) = Text.skipBlanks text :=
    List.dropWhile_cons_of_pos isBlank
  have width : position + Utf8.width ((character :: text).takeWhile Text.isBlank) =
      position + character.utf8Size + Utf8.width (text.takeWhile Text.isBlank) := by
    rw [List.takeWhile_cons_of_pos isBlank, Utf8.width, Nat.add_assoc]
  rw [tokens.eq_def, tokens.eq_def budget depth (position + character.utf8Size)]
  dsimp only
  rw [skipped, width]

theorem tokens_cons {first : Char} (notBlank : Text.isBlank first = false)
    (budget depth position : Nat) (text : List Char) :
    tokens budget depth position (first :: text) =
      match budget, cutAt? depth (first :: text) with
      | 0, _ | _, none => .error ⟨position, noToken first⟩
      | budget + 1, some cut =>
        match runsOn? cut with
        | some complaint => .error ⟨position, complaint⟩
        | none => (do
          let others ← tokens budget (depthAfter depth cut.lexeme)
            (position + Utf8.width cut.source) cut.rest
          .ok (⟨cut.lexeme, position⟩ :: others)) := by
  have blank : ¬Text.isBlank first = true := by simp [notBlank]
  have kept : Text.skipBlanks (first :: text) = first :: text := List.dropWhile_cons_of_neg blank
  have width : Utf8.width ((first :: text).takeWhile Text.isBlank) = 0 := by
    rw [List.takeWhile_cons_of_neg blank]
    rfl
  rw [tokens.eq_def]
  dsimp only
  rw [kept, width, Nat.add_zero]
  cases budget with
  | zero => rfl
  | succ budget =>
      dsimp only
      rw [cutAt?]
      cases if depth = 0 then pathCut? (first :: text) else filterCut? (first :: text) <;> rfl

/-- The tokens of a text that begins at byte `position` inside `depth` open brackets, where no
bracket is open at the end. -/
inductive Tokenizes : (depth position : Nat) → List Char → List Token → Prop
  | finish {position : Nat} : Tokenizes 0 position [] [⟨.finish, position⟩]
  | blank {depth position : Nat} {character : Char} {text : List Char} {found : List Token}
      (isBlank : Text.isBlank character = true)
      (others : Tokenizes depth (position + character.utf8Size) text found) :
      Tokenizes depth position (character :: text) found
  | token {depth position : Nat} {text : List Char} {cut : Cut} {found : List Token}
      (isCut : cutAt? depth text = some cut) (ends : runsOn? cut = none)
      (others : Tokenizes (depthAfter depth cut.lexeme) (position + Utf8.width cut.source)
        cut.rest found) :
      Tokenizes depth position text (⟨cut.lexeme, position⟩ :: found)

/-- A text that is accepted is cut up to its end. -/
theorem tokens_sound : ∀ {budget depth position : Nat} {text : List Char} {found : List Token},
    tokens budget depth position text = .ok found → Tokenizes depth position text found
  | budget, _, position, [], found, read => by
      rw [tokens_nil] at read
      split at read
      next outside =>
        cases read
        exact outside ▸ .finish
      next => cases read
  | budget, depth, position, first :: text, found, read => by
      cases blank : Text.isBlank first with
      | true =>
          rw [tokens_skip blank] at read
          exact .blank blank (tokens_sound read)
      | false =>
          rw [tokens_cons blank] at read
          split at read
          next => cases read
          next => cases read
          next budget cut isCut =>
            split at read
            next => cases read
            next ends =>
              rcases bind_eq_ok.mp read with ⟨others, othersRead, same⟩
              cases same
              exact .token isCut ends (tokens_sound othersRead)
termination_by budget _ _ text => (budget, text.length)

theorem Tokenizes.cuts {depth position : Nat} {text : List Char} {found : List Token}
    (tokenizes : Tokenizes depth position text found) :
    ∃ cut, lexemes found = cut ++ [.finish] ∧ Cuts 0 [] depth text cut := by
  induction tokenizes with
  | finish => exact ⟨[], rfl, .done⟩
  | blank isBlank _ induction =>
      obtain ⟨cut, spelled, cuts⟩ := induction
      exact ⟨cut, spelled, .blank isBlank cuts⟩
  | @token _ _ _ cut _ isCut ends _ induction =>
      obtain ⟨lexemes, spelled, cuts⟩ := induction
      exact ⟨cut.lexeme :: lexemes, congrArg (cut.lexeme :: ·) spelled, .token isCut ends cuts⟩

/-- A text that is cut up to its end is accepted, wherever it begins. -/
theorem tokens_complete {depth : Nat} {text : List Char} {cut : List Lexeme}
    (cuts : Cuts 0 [] depth text cut) : ∀ (position : Nat) {budget : Nat},
      text.length ≤ budget → ∃ found, tokens budget depth position text = .ok found ∧
        lexemes found = cut ++ [.finish] := by
  induction cuts with
  | done =>
      intro position budget _
      exact ⟨_, tokens_nil budget 0 position, rfl⟩
  | blank isBlank _ induction =>
      intro position budget enough
      rw [tokens_skip isBlank]
      exact induction _ (Nat.le_of_succ_le enough)
  | @token depth text cut lexemes found ends _ induction =>
      intro position budget enough
      have splits := cutAt?_splits found
      cases text with
      | nil => exact absurd (List.append_eq_nil_iff.mp splits.split.symm).1 splits.takes
      | cons first text =>
          have notBlank : Text.isBlank first = false := by
            rw [Bool.eq_false_iff]
            intro isBlank
            rw [cutAt?_blank isBlank] at found
            cases found
          cases budget with
          | zero => cases enough
          | succ budget =>
              have shorter : cut.rest.length ≤ budget := by
                have length := congrArg List.length splits.split
                have taken := List.length_pos_iff.mpr splits.takes
                rw [List.length_append] at length
                omega
              rcases induction (position + Utf8.width cut.source) shorter with
                ⟨others, read, spelled⟩
              refine ⟨⟨cut.lexeme, position⟩ :: others, ?_, congrArg (cut.lexeme :: ·) spelled⟩
              rw [tokens_cons notBlank, found]
              simp only [ends, read, ok_bind]

/-! ## Paths -/

/-- The text after a dollar sign that marks the root, if the text begins with one. -/
def afterRoot? (text : List Char) : Option (List Char) :=
  match Text.skipBlanks text with
  | '$' :: rest => if endsRoot rest then some rest else none
  | _ => none

/-- The lexemes of a whole path. A dollar sign is a lexeme of its own only at the beginning. -/
inductive PathLexemes (text : List Char) : List Lexeme → Prop
  | root {rest : List Char} {lexemes : List Lexeme} (marked : afterRoot? text = some rest)
      (cuts : Cuts 0 [] 0 rest lexemes) : PathLexemes text (.root :: lexemes)
  | plain {lexemes : List Lexeme} (unmarked : afterRoot? text = none)
      (cuts : Cuts 0 [] 0 text lexemes) : PathLexemes text lexemes

theorem PathLexemes.not_mem_finish {text : List Char} {cut : List Lexeme}
    (spelled : PathLexemes text cut) : Lexeme.finish ∉ cut := by
  cases spelled with
  | root _ cuts =>
      rw [List.mem_cons, not_or]
      exact ⟨nofun, cuts.not_mem_finish⟩
  | plain _ cuts => exact cuts.not_mem_finish

theorem afterRoot?_of_dollar {text rest : List Char}
    (skipped : Text.skipBlanks text = '$' :: rest) :
    afterRoot? text = if endsRoot rest then some rest else none := by
  rw [afterRoot?, skipped]
  rfl

theorem afterRoot?_of_not_dollar {text : List Char}
    (unmarked : ∀ rest, Text.skipBlanks text ≠ '$' :: rest) : afterRoot? text = none := by
  unfold afterRoot?
  split
  next rest skipped => exact absurd skipped (unmarked rest)
  next => rfl

theorem tokenize_eq (path : String) : tokenize path =
    match afterRoot? path.toList with
    | some rest => do
      let position := Utf8.width (path.toList.takeWhile Text.isBlank)
      let others ← tokens path.toList.length 0 (position + 1) rest
      .ok (⟨.root, position⟩ :: others)
    | none => tokens path.toList.length 0 0 path.toList := by
  unfold tokenize
  dsimp only
  split
  next rest skipped =>
    rw [afterRoot?_of_dollar skipped]
    split <;> rfl
  next unmarked => rw [afterRoot?_of_not_dollar unmarked]

theorem afterRoot?_eq_some {text rest : List Char} :
    afterRoot? text = some rest ↔ Text.skipBlanks text = '$' :: rest ∧ endsRoot rest = true := by
  constructor
  · intro marked
    unfold afterRoot? at marked
    split at marked
    next skipped =>
      split at marked
      next ends =>
        cases marked
        exact ⟨skipped, ends⟩
      next => cases marked
    next => cases marked
  · rintro ⟨skipped, ends⟩
    rw [afterRoot?_of_dollar skipped, if_pos ends]

theorem length_of_afterRoot? {text rest : List Char} (marked : afterRoot? text = some rest) :
    rest.length ≤ text.length := by
  obtain ⟨skipped, _⟩ := afterRoot?_eq_some.mp marked
  have suffix : '$' :: rest <:+ text := skipped ▸ List.dropWhile_suffix _
  exact Nat.le_trans (Nat.le_succ _) suffix.length_le

theorem tokenize_sound {path : String} {found : List Token} (read : tokenize path = .ok found) :
    ∃ cut, lexemes found = cut ++ [.finish] ∧ PathLexemes path.toList cut := by
  rw [tokenize_eq] at read
  split at read
  next rest marked =>
    rcases bind_eq_ok.mp read with ⟨others, othersRead, same⟩
    cases same
    rcases (tokens_sound othersRead).cuts with ⟨cut, spelled, cuts⟩
    exact ⟨.root :: cut, congrArg (Lexeme.root :: ·) spelled, .root marked cuts⟩
  next unmarked =>
    rcases (tokens_sound read).cuts with ⟨cut, spelled, cuts⟩
    exact ⟨cut, spelled, .plain unmarked cuts⟩

theorem tokenize_complete {path : String} {cut : List Lexeme}
    (spelled : PathLexemes path.toList cut) :
    ∃ found, tokenize path = .ok found ∧ lexemes found = cut ++ [.finish] := by
  rw [tokenize_eq]
  cases spelled with
  | root marked cuts =>
      rcases tokens_complete cuts _ (length_of_afterRoot? marked) with ⟨others, read, same⟩
      rw [marked]
      dsimp only
      rw [read]
      exact ⟨_, rfl, congrArg (Lexeme.root :: ·) same⟩
  | plain unmarked cuts =>
      rw [unmarked]
      exact tokens_complete cuts 0 (Nat.le_refl _)

end JsonQuery.Lexer
