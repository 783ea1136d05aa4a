import JsonQuery.Proofs.Path.Lexemes

/-!
The tokens by their kinds. What is cut off a text is decided by its own characters and by the first
one behind them: `TokenText` says how, and `cutAt?_sound` and `TokenText.cut` are its two halves.
So a token is cut off as before if the same character stands behind it, or one that it does not go
on with, such as a blank.
-/

namespace JsonQuery.Lexer

/-! ## Symbols -/

def symbolsAt (depth : Nat) : List Lexeme :=
  if depth = 0 then pathSymbols else filterSymbols

theorem symbolsAt_eq (depth : Nat) :
    symbolsAt depth = pathSymbols ∨ symbolsAt depth = filterSymbols := by
  unfold symbolsAt
  split
  · exact .inl rfl
  · exact .inr rfl

theorem symbolsAt_ordered (depth : Nat) : (symbolsAt depth).Pairwise fun earlier later =>
    ¬earlier.text.toList <+: later.text.toList := by
  rcases symbolsAt_eq depth with same | same <;> rw [same] <;> decide

theorem symbolsAt_short (depth : Nat) : ∀ symbol ∈ symbolsAt depth,
    symbol.text.toList ≠ [] ∧ symbol.text.toList.length ≤ 2 := by
  rcases symbolsAt_eq depth with same | same <;> rw [same] <;> decide

def EndsSymbol (depth : Nat) (lexeme : Lexeme) (next : Char) : Prop :=
  ∀ symbol ∈ symbolsAt depth, symbol.text.toList ≠ lexeme.text.toList ++ [next]

theorem symbol?_sound {depth : Nat} {text : List Char} {cut : Cut}
    (found : symbol? (symbolsAt depth) text = some cut) :
    cut.lexeme ∈ symbolsAt depth ∧ cut.source = cut.lexeme.text.toList ∧
      ∀ next ∈ cut.rest.head?, EndsSymbol depth cut.lexeme next := by
  rcases Option.map_eq_some_iff.mp found with ⟨lexeme, chosen, rfl⟩
  obtain ⟨begins, earlier, later, same, refused⟩ := List.find?_eq_some_iff_append.mp chosen
  refine ⟨List.mem_of_find?_eq_some chosen, rfl, ?_⟩
  obtain ⟨rest, rfl⟩ : lexeme.text.toList <+: text := List.isPrefixOf_iff_prefix.mp begins
  intro next head symbol isSymbol goesOn
  dsimp only at head goesOn
  rw [List.drop_left] at head
  obtain ⟨behind, rfl⟩ := List.head?_eq_some_iff.mp head
  have ordered := symbolsAt_ordered depth
  rw [same] at ordered isSymbol
  rcases List.mem_append.mp isSymbol with before | after
  · -- A symbol before the one that was chosen does not begin the text.
    have unread := refused symbol before
    have begins : lexeme.text.toList ++ [next] <+: lexeme.text.toList ++ next :: behind :=
      (List.prefix_append_right_inj _).mpr (List.prefix_append [next] behind)
    rw [Bool.not_eq_true', Bool.eq_false_iff, goesOn] at unread
    exact unread (List.isPrefixOf_iff_prefix.mpr begins)
  · -- A symbol behind it does not begin with it.
    have apart := (List.pairwise_cons.mp (List.pairwise_append.mp ordered).2.1).1
    rcases List.mem_cons.mp after with rfl | after
    · simp at goesOn
    · exact apart symbol after (goesOn ▸ List.prefix_append _ _)

theorem symbol?_complete {depth : Nat} {lexeme : Lexeme} {rest : List Char}
    (isSymbol : lexeme ∈ symbolsAt depth)
    (ends : ∀ next ∈ rest.head?, EndsSymbol depth lexeme next) :
    symbol? (symbolsAt depth) (lexeme.text.toList ++ rest) =
      some ⟨lexeme, lexeme.text.toList, rest⟩ := by
  obtain ⟨earlier, later, same⟩ := List.append_of_mem isSymbol
  have ordered := symbolsAt_ordered depth
  rw [same] at ordered
  have refused : ∀ symbol ∈ earlier,
      ¬symbol.text.toList <+: lexeme.text.toList ++ rest := by
    intro symbol before begins
    have known : symbol ∈ symbolsAt depth := same ▸ List.mem_append_left _ before
    have apart := (List.pairwise_append.mp ordered).2.2 symbol before lexeme List.mem_cons_self
    rcases List.prefix_or_prefix_of_prefix begins (List.prefix_append _ _) with short | long
    · exact apart short
    · obtain ⟨more, goesOn⟩ := long
      rw [← goesOn, List.prefix_append_right_inj] at begins
      have isText := (symbolsAt_short depth lexeme isSymbol).1
      have short := (symbolsAt_short depth symbol known).2
      rw [← goesOn, List.length_append] at short
      have positive := List.length_pos_iff.mpr isText
      match more, begins with
      | [], _ => exact apart (goesOn ▸ (List.append_nil _).symm ▸ List.prefix_rfl)
      | [next], ⟨behind, same⟩ => exact ends next (same ▸ rfl) symbol known goesOn.symm
      | _ :: _ :: _, _ => simp at short; omega
  have chosen : (symbolsAt depth).find? (fun symbol =>
      symbol.text.toList.isPrefixOf (lexeme.text.toList ++ rest)) = some lexeme := by
    refine List.find?_eq_some_iff_append.mpr ⟨by simp, earlier, later, same, ?_⟩
    intro symbol before
    rw [Bool.not_eq_true', Bool.eq_false_iff, ne_eq, List.isPrefixOf_iff_prefix]
    exact refused symbol before
  rw [symbol?, chosen, Option.map_some, List.drop_left]

/-! ## Quoted strings -/

theorem quotedBody?_sound {quote : Char} (text : List Char) :
    ∀ {content source rest : List Char}, quotedBody? quote text = some (content, source, rest) →
      ∃ inside, source = inside ++ [quote] ∧ SpellsContent quote inside content := by
  fun_induction quotedBody? quote text with
  | case1 =>
      intro content source rest read
      cases read
  | case2 =>
      intro content source rest read
      cases read
  | case3 escaped text induction =>
      intro content source rest read
      rcases Option.bind_eq_some_iff.mp read with ⟨⟨_, _, _⟩, body, same⟩
      cases same
      obtain ⟨inside, rfl, spelled⟩ := induction body
      exact ⟨_, rfl, .escaped escaped spelled⟩
  | case4 =>
      intro content source rest read
      cases read
      exact ⟨[], rfl, .nil⟩
  | case5 character text notEscape notQuote induction =>
      intro content source rest read
      rcases Option.bind_eq_some_iff.mp read with ⟨⟨_, _, _⟩, body, same⟩
      cases same
      obtain ⟨inside, rfl, spelled⟩ := induction body
      exact ⟨_, rfl, .plain notQuote notEscape spelled⟩

/-! ## Kinds of tokens -/

inductive TokenText (depth : Nat) (next : Option Char) : Lexeme → List Char → Prop
  | symbol {lexeme : Lexeme} (isSymbol : lexeme ∈ symbolsAt depth)
      (ends : ∀ character ∈ next, EndsSymbol depth lexeme character) :
      TokenText depth next lexeme lexeme.text.toList
  | quoted {quote : Char} {text content : List Char} (isQuote : quote = '\'' ∨ quote = '"')
      (spelled : SpellsContent quote text content) :
      TokenText depth next (.quoted (String.ofList content)) (quote :: (text ++ [quote]))
  | name {source : List Char} (outside : depth = 0) (isText : source ≠ [])
      (plain : ∀ character ∈ source, isNameCharacter character = true)
      (ends : ∀ character ∈ next, isNameCharacter character = false) :
      TokenText depth next (.name (String.ofList source)) source
  | number {mark : Char} {source : List Char} {decimal : Decimal} (inside : depth ≠ 0)
      (numeral : Numeral mark source decimal)
      (ends : ∀ character ∈ next, Text.isAlphanumeric character = false ∧ character ≠ '_' ∧
        character ≠ '.') :
      TokenText depth next (.number (String.ofList source)) source
  | word {first : Char} {others : List Char} (inside : depth ≠ 0)
      (starts : isIdentifierStart first = true)
      (parts : ∀ character ∈ others, isIdentifierPart character = true)
      (ends : ∀ character ∈ next, isIdentifierPart character = false) :
      TokenText depth next (word (String.ofList (first :: others))) (first :: others)

theorem cutAt?_eq (depth : Nat) (text : List Char) :
    cutAt? depth text = (symbol? (symbolsAt depth) text).or
      (if depth = 0 then (quoted? text).or (bareName? text)
        else (number? text).or ((quoted? text).or (identifier? text))) := by
  unfold cutAt? symbolsAt
  split
  · exact pathCut?_eq text
  · exact filterCut?_eq text

theorem quoted?_sound {depth : Nat} {next : Option Char} {text : List Char} {cut : Cut}
    (found : quoted? text = some cut) : TokenText depth next cut.lexeme cut.source := by
  cases text with
  | nil => cases found
  | cons quote text =>
      rw [quoted?] at found
      split at found
      next isQuote =>
        rcases Option.bind_eq_some_iff.mp found with ⟨⟨content, source, rest⟩, body, same⟩
        cases same
        obtain ⟨inside, rfl, spelled⟩ := quotedBody?_sound text body
        exact .quoted isQuote spelled
      next => cases found

theorem head_dropWhile {α : Type} (property : α → Bool) (items : List α) :
    ∀ item ∈ (items.dropWhile property).head?, property item = false := by
  intro item head
  have stops := List.head?_dropWhile_not property items
  rw [Option.mem_def.mp head] at stops
  simpa using stops

theorem bareName?_sound {depth : Nat} {text : List Char} {cut : Cut} (outside : depth = 0)
    (found : bareName? text = some cut) :
    TokenText depth cut.rest.head? cut.lexeme cut.source := by
  rw [bareName?] at found
  split at found
  next => cases found
  next source isSome =>
    cases found
    refine .name outside isSome ?_ (head_dropWhile _ text)
    exact List.all_eq_true.mp List.all_takeWhile

theorem identifier?_sound {depth : Nat} {text : List Char} {cut : Cut} (inside : depth ≠ 0)
    (found : identifier? text = some cut) :
    TokenText depth cut.rest.head? cut.lexeme cut.source := by
  cases text with
  | nil => cases found
  | cons first text =>
      rw [identifier?] at found
      split at found
      next starts =>
        cases found
        refine .word inside starts ?_ (head_dropWhile _ text)
        exact List.all_eq_true.mp List.all_takeWhile
      next => cases found

theorem ends_of_runsOn? {text : String} {source rest : List Char}
    (ends : runsOn? ⟨.number text, source, rest⟩ = none) :
    ∀ next ∈ rest.head?, Text.isAlphanumeric next = false ∧ next ≠ '_' ∧ next ≠ '.' := by
  intro next head
  obtain ⟨behind, rfl⟩ := List.head?_eq_some_iff.mp head
  simpa [runsOn?, and_assoc] using ends

theorem cutAt?_sound {depth : Nat} {text : List Char} {cut : Cut}
    (found : cutAt? depth text = some cut) (ends : runsOn? cut = none) :
    TokenText depth cut.rest.head? cut.lexeme cut.source := by
  rw [cutAt?_eq, Option.or_eq_some_iff] at found
  rcases found with isSymbol | ⟨_, found⟩
  · obtain ⟨known, same, longest⟩ := symbol?_sound isSymbol
    rw [same]
    exact .symbol known longest
  split at found
  next outside =>
    rcases Option.or_eq_some_iff.mp found with isString | ⟨_, isName⟩
    · exact quoted?_sound isString
    · exact bareName?_sound outside isName
  next inside =>
    simp only [Option.or_eq_some_iff] at found
    rcases found with isNumber | ⟨_, isString | ⟨_, isWord⟩⟩
    · obtain ⟨lexeme, source, rest⟩ := cut
      obtain ⟨same, mark, decimal, numeral⟩ := number?_sound isNumber
      dsimp only at same
      subst same
      exact .number inside numeral (ends_of_runsOn? ends)
    · exact quoted?_sound isString
    · exact identifier?_sound inside isWord

/-! ## Cutting them off -/

theorem cutAt?_symbol {depth : Nat} {lexeme : Lexeme} {rest : List Char}
    (isSymbol : lexeme ∈ symbolsAt depth)
    (ends : ∀ next ∈ rest.head?, EndsSymbol depth lexeme next) :
    cutAt? depth (lexeme.text.toList ++ rest) = some ⟨lexeme, lexeme.text.toList, rest⟩ := by
  rw [cutAt?_eq, symbol?_complete isSymbol ends]
  rfl

theorem symbolsAt_plain (depth : Nat) : ∀ symbol ∈ symbolsAt depth, ∀ text,
    symbol ≠ .number text ∧ symbol ≠ .quoted text := by
  rcases symbolsAt_eq depth with same | same <;>
    simp [same, pathSymbols, filterSymbols]

theorem runsOn?_of_not_number {lexeme : Lexeme} (notNumber : ∀ text, lexeme ≠ .number text)
    (source rest : List Char) : runsOn? ⟨lexeme, source, rest⟩ = none := by
  unfold runsOn?
  split
  next isNumber _ => exact absurd isNumber (notNumber _)
  next => rfl

theorem word_plain (text other : String) :
    word text ≠ .number other ∧ word text ≠ .quoted other := by
  unfold word
  repeat' split
  all_goals exact ⟨nofun, nofun⟩

theorem endsNumber_of_ends {rest : List Char} (ends : ∀ next ∈ rest.head?,
      Text.isAlphanumeric next = false ∧ next ≠ '_' ∧ next ≠ '.') : EndsNumber rest := by
  intro next head
  obtain ⟨notPart, _, notPoint⟩ := ends next head
  refine ⟨?_, notPoint, ?_, ?_⟩
  · rw [Bool.eq_false_iff]
    intro isDigit
    rw [isAlphanumeric_of_isDigit isDigit] at notPart
    cases notPart
  · rintro rfl
    exact absurd notPart (by decide)
  · rintro rfl
    exact absurd notPart (by decide)

theorem runsOn?_of_ends {text : String} {source rest : List Char} (ends : ∀ next ∈ rest.head?,
      Text.isAlphanumeric next = false ∧ next ≠ '_' ∧ next ≠ '.') :
    runsOn? ⟨.number text, source, rest⟩ = none := by
  cases rest with
  | nil => rfl
  | cons next rest => simp [runsOn?, ends next rfl]

theorem TokenText.cut {depth : Nat} {lexeme : Lexeme} {source rest : List Char}
    (spelled : TokenText depth rest.head? lexeme source) :
    cutAt? depth (source ++ rest) = some ⟨lexeme, source, rest⟩ ∧
      runsOn? ⟨lexeme, source, rest⟩ = none := by
  cases spelled with
  | symbol isSymbol ends =>
      have notNumber := fun text => (symbolsAt_plain depth lexeme isSymbol text).1
      exact ⟨cutAt?_symbol isSymbol ends, runsOn?_of_not_number notNumber _ _⟩
  | quoted isQuote spelled =>
      exact ⟨cutAt?_string depth isQuote spelled rest, runsOn?_of_not_number (by simp) _ _⟩
  | name outside isText plain ends =>
      subst outside
      exact ⟨cutAt?_name isText plain ends, runsOn?_of_not_number (by simp) _ _⟩
  | number inside numeral ends =>
      obtain ⟨depth, rfl⟩ := Nat.exists_eq_succ_of_ne_zero inside
      exact ⟨cutAt?_numeral depth numeral (endsNumber_of_ends ends), runsOn?_of_ends ends⟩
  | word inside starts parts ends =>
      obtain ⟨depth, rfl⟩ := Nat.exists_eq_succ_of_ne_zero inside
      exact ⟨cutAt?_word depth starts parts ends,
        runsOn?_of_not_number (fun text => (word_plain _ text).1) _ _⟩

theorem word_text (text : String) : (word text).text = text := by
  unfold word
  split
  next same => exact same.symm
  next =>
    split
    next same => exact same.symm
    next =>
      split
      next same => exact same.symm
      next => rfl

theorem TokenText.source_eq {depth : Nat} {next : Option Char} {lexeme : Lexeme}
    {source : List Char} (spelled : TokenText depth next lexeme source)
    (notQuoted : ∀ content, lexeme ≠ .quoted content) : source = lexeme.text.toList := by
  cases spelled with
  | symbol => rfl
  | quoted => exact absurd rfl (notQuoted _)
  | name | number => exact String.toList_ofList.symm
  | word => rw [word_text, String.toList_ofList]

theorem eq_of_cutAt? {depth : Nat} {text : List Char} {cut : Cut} {lexeme : Lexeme}
    (found : cutAt? depth text = some cut) (ends : runsOn? cut = none)
    (same : cut.lexeme = lexeme) (notQuoted : ∀ content, lexeme ≠ .quoted content) :
    text = lexeme.text.toList ++ cut.rest := by
  subst same
  rw [← (cutAt?_sound found ends).source_eq notQuoted]
  exact (cutAt?_splits found).split

/-! ## What may stand behind a token -/

/-- No token that is spelled by the characters of `source` goes on with the next one. -/
structure Parts (source : List Char) (next : Char) : Prop where
  notName : isNameCharacter next = false
  notWord : isIdentifierPart next = false
  notPoint : next ≠ '.'
  notSymbol : ∀ depth, ∀ symbol ∈ symbolsAt depth, symbol.text.toList ≠ source ++ [next]

theorem TokenText.before {depth : Nat} {next other : Option Char} {lexeme : Lexeme}
    {source : List Char} (spelled : TokenText depth next lexeme source)
    (follows : ∀ character ∈ other, next = some character ∨ Parts source character) :
    TokenText depth other lexeme source := by
  have ends {property : Char → Prop} (before : ∀ character ∈ next, property character)
      (parted : ∀ character, Parts source character → property character) :
      ∀ character ∈ other, property character := by
    intro character head
    rcases follows character head with same | parts
    · exact before character same
    · exact parted character parts
  cases spelled with
  | symbol isSymbol longest =>
      exact .symbol isSymbol (ends longest fun _ parts => parts.notSymbol depth)
  | quoted isQuote spelled => exact .quoted isQuote spelled
  | name outside isText plain stops =>
      exact .name outside isText plain (ends stops fun _ parts => parts.notName)
  | number inside numeral stops =>
      refine .number inside numeral (ends stops ?_)
      intro character parts
      have notWord := parts.notWord
      simp only [isIdentifierPart, Bool.or_eq_false_iff, decide_eq_false_iff_not] at notWord
      exact ⟨notWord.1.1, notWord.1.2, parts.notPoint⟩
  | word inside starts others stops =>
      exact .word inside starts others (ends stops fun _ parts => parts.notWord)

/-- A token is cut off as before if what stands behind it begins as before, or if it begins with a
character that the token does not go on with. -/
theorem cutAt?_followed {depth : Nat} {text rest : List Char} {cut : Cut}
    (found : cutAt? depth text = some cut) (ends : runsOn? cut = none)
    (follows : ∀ next ∈ rest.head?, cut.rest.head? = some next ∨ Parts cut.source next) :
    cutAt? depth (cut.source ++ rest) = some ⟨cut.lexeme, cut.source, rest⟩ ∧
      runsOn? ⟨cut.lexeme, cut.source, rest⟩ = none :=
  ((cutAt?_sound found ends).before follows).cut

theorem parts_blank {next : Char} (isBlank : Text.isBlank next = true) (source : List Char) :
    Parts source next := by
  have unblank : ∀ depth, ∀ symbol ∈ symbolsAt depth,
      symbol.text.toList.any Text.isBlank = false := by
    intro depth
    rcases symbolsAt_eq depth with same | same <;> rw [same] <;> decide
  refine ⟨?_, ?_, ?_, ?_⟩
  · simp only [Text.isBlank, Bool.or_eq_true, decide_eq_true_eq] at isBlank
    rcases isBlank with ((rfl | rfl) | rfl) | rfl <;> decide
  · simp only [Text.isBlank, Bool.or_eq_true, decide_eq_true_eq] at isBlank
    rcases isBlank with ((rfl | rfl) | rfl) | rfl <;> decide
  · rintro rfl
    cases isBlank
  · intro depth symbol isSymbol same
    have noBlank := unblank depth symbol isSymbol
    simp [same, isBlank] at noBlank

def Cut.before (cut : Cut) (after : List Char) : Cut :=
  ⟨cut.lexeme, cut.source, cut.rest ++ after⟩

/-- A token is cut off as before with more text behind, unless it stands at the end and goes on
with the first character behind it. -/
theorem cutAt?_before {depth : Nat} {text after : List Char} {cut : Cut}
    (found : cutAt? depth text = some cut) (ends : runsOn? cut = none)
    (apart : cut.rest = [] → ∀ next ∈ after.head?, Parts cut.source next) :
    cutAt? depth (text ++ after) = some (cut.before after) ∧ runsOn? (cut.before after) = none := by
  have follows : ∀ next ∈ (cut.rest ++ after).head?,
      cut.rest.head? = some next ∨ Parts cut.source next := by
    intro next head
    cases same : cut.rest with
    | nil =>
        rw [same] at head
        exact .inr (apart same next head)
    | cons first rest =>
        rw [same] at head
        exact .inl head
  have splits := cutAt?_splits found
  have foundThere := cutAt?_followed found ends follows
  rwa [← List.append_assoc, ← splits.split] at foundThere

/-! ## Texts with more behind them -/

theorem Cuts.eq_nil {stop depth : Nat} {rest : List Char} {lexemes : List Lexeme}
    (cuts : Cuts stop rest depth [] lexemes) : lexemes = [] := by
  generalize same : ([] : List Char) = text at cuts
  cases cuts with
  | done => rfl
  | blank => cases same
  | token found =>
      have splits := cutAt?_splits found
      exact absurd (List.append_eq_nil_iff.mp (splits.split.symm.trans same.symm)).1 splits.takes

theorem Cuts.closed {depth : Nat} {text : List Char} {lexemes : List Lexeme}
    (cuts : Cuts 0 [] depth text lexemes)
    (after : List Char) :
    lexemes = [] ∨ lexemes.getLast? = some .closeBracket →
      Cuts 0 after depth (text ++ after) lexemes := by
  induction cuts with
  | done => exact fun _ => .done
  | blank isBlank _ induction => exact fun closes => .blank isBlank (induction closes)
  | @token depth text cut lexemes found ends others induction =>
      intro closes
      have last : (cut.lexeme :: lexemes).getLast? = some .closeBracket :=
        closes.resolve_left nofun
      cases lexemes with
      | cons next lexemes =>
          have goesOn : cut.rest ≠ [] := by
            intro nothing
            rw [nothing] at others
            cases others.eq_nil
          rw [List.getLast?_cons_cons] at last
          obtain ⟨foundThere, endsThere⟩ :=
            cutAt?_before found ends fun nothing => absurd nothing goesOn
          have token := Cuts.token foundThere endsThere (induction (.inr last))
          exact token
      | nil =>
          -- Nothing but blanks is left, so this token is the bracket, which sees no further.
          have closesHere : cut.lexeme = .closeBracket := Option.some.inj last
          have same : text = ']' :: cut.rest := eq_of_cutAt? found ends closesHere (by simp)
          have foundThere : cutAt? depth (text ++ after) =
              some ⟨.closeBracket, [']'], cut.rest ++ after⟩ := by
            rw [same] at found ⊢
            cases depth with
            | zero => cases found
            | succ depth => rfl
          have behind := induction (.inl rfl)
          rw [closesHere] at behind ⊢
          have token := Cuts.token foundThere rfl behind
          exact token

/-! ## Where lexemes stand -/

def LegibleAt (depth : Nat) : Lexeme → Prop
  | .name name => depth = 0 ∨ IsIdentifier name
  | .number text => ∃ mark decimal, Numeral mark text.toList decimal
  | .openParenthesis => depth ≠ 0
  | _ => True

def Legible : Nat → List Lexeme → Prop
  | _, [] => True
  | depth, lexeme :: lexemes =>
    LegibleAt depth lexeme ∧ Legible (depthAfter depth lexeme) lexemes

theorem word_legible (depth : Nat) {text : String}
    (spelled : ∃ first others, text.toList = first :: others ∧ isIdentifierStart first = true ∧
      ∀ character ∈ others, isIdentifierPart character = true) : LegibleAt depth (word text) := by
  unfold word
  split
  next => trivial
  next notTrue =>
    split
    next => trivial
    next notFalse =>
      split
      next => trivial
      next notNull => exact .inr ⟨spelled, notTrue, notFalse, notNull⟩

theorem symbolsAt_legible (depth : Nat) : ∀ symbol ∈ symbolsAt depth, LegibleAt depth symbol := by
  unfold symbolsAt
  split
  next => simp [pathSymbols, LegibleAt]
  next inside => simp [filterSymbols, LegibleAt, inside]

theorem TokenText.legible {depth : Nat} {next : Option Char} {lexeme : Lexeme}
    {source : List Char} (spelled : TokenText depth next lexeme source) :
    LegibleAt depth lexeme := by
  cases spelled with
  | symbol isSymbol => exact symbolsAt_legible depth _ isSymbol
  | quoted => trivial
  | name outside => exact .inl outside
  | @number mark source decimal _ numeral =>
      refine ⟨mark, decimal, ?_⟩
      rw [String.toList_ofList]
      exact numeral
  | word _ starts parts => exact word_legible depth ⟨_, _, String.toList_ofList, starts, parts⟩

theorem Cuts.legible {stop : Nat} {rest : List Char} {depth : Nat} {text : List Char}
    {lexemes : List Lexeme} (cuts : Cuts stop rest depth text lexemes) : Legible depth lexemes := by
  induction cuts with
  | done => exact trivial
  | blank _ _ induction => exact induction
  | token found ends _ induction => exact ⟨(cutAt?_sound found ends).legible, induction⟩

/-- What the lexemes of an accepted text have in common with all that stand in them side by side:
a name before a parenthesis is an identifier, and a number is spelled by a numeral. -/
structure Readable (lexemes : List Lexeme) : Prop where
  calls : ∀ {name : String}, [.name name, .openParenthesis] <:+: lexemes → IsIdentifier name
  numbers : ∀ {text : String}, .number text ∈ lexemes →
    ∃ mark decimal, Numeral mark text.toList decimal

theorem Readable.of_infix {part lexemes : List Lexeme} (readable : Readable lexemes)
    (isPart : part <:+: lexemes) : Readable part where
  calls stands := readable.calls (stands.trans isPart)
  numbers member := readable.numbers (isPart.subset member)

theorem Readable.before {first rest : List Lexeme} (readable : Readable (first ++ rest)) :
    Readable first :=
  readable.of_infix (List.prefix_append first rest).isInfix

theorem Readable.after {first rest : List Lexeme} (readable : Readable (first ++ rest)) :
    Readable rest :=
  readable.of_infix (List.suffix_append first rest).isInfix

theorem Readable.tail {lexeme : Lexeme} {rest : List Lexeme}
    (readable : Readable (lexeme :: rest)) : Readable rest :=
  readable.of_infix (List.suffix_cons lexeme rest).isInfix

theorem Legible.readable : ∀ {depth : Nat} {lexemes : List Lexeme}, Legible depth lexemes →
    Readable lexemes
  | _, [], _ => ⟨fun stands => absurd (List.infix_nil.mp stands) nofun, nofun⟩
  | depth, lexeme :: lexemes, ⟨here, others⟩ => by
      refine ⟨?_, ?_⟩
      · intro name stands
        rcases List.infix_cons_iff.mp stands with begins | stands
        · rcases List.cons_prefix_cons.mp begins with ⟨rfl, behind⟩
          cases lexemes with
          | nil => exact absurd (List.prefix_nil.mp behind) nofun
          | cons next lexemes =>
              rcases List.cons_prefix_cons.mp behind with ⟨rfl, _⟩
              -- A parenthesis is cut off only inside brackets, so the name before it was, too.
              exact here.resolve_left others.1
        · exact others.readable.calls stands
      · intro text member
        rcases List.mem_cons.mp member with rfl | member
        · exact here
        · exact others.readable.numbers member

theorem PathLexemes.readable {text : List Char} {lexemes : List Lexeme}
    (spelled : PathLexemes text lexemes) : Readable lexemes := by
  cases spelled with
  | root _ cuts =>
      have legible : Legible 0 (.root :: _) := ⟨trivial, cuts.legible⟩
      exact legible.readable
  | plain _ cuts => exact cuts.legible.readable

end JsonQuery.Lexer
