import JsonQuery.Proofs.Json.Grammar
import JsonQuery.Proofs.Outcome

/-!
Reading strings: a reader that is past the opening quote takes the rest of a quoted string off the
front of a text, and it does so for every quoted string.
-/

namespace JsonQuery.Json

theorem readSurrogate_sound {unit : Nat} {a b c d : Char} {text rest : List Char} {character : Char}
    (digits : codeUnit? a b c d = some unit)
    (read : readSurrogate unit text = .ok (character, rest)) :
    ∃ letters, 'u' :: a :: b :: c :: d :: text = letters ++ rest ∧
      EscapeText letters character := by
  revert read
  fun_cases readSurrogate unit text with
  | case1 high backslash mark e f g h text marked low lowDigits isLow =>
      intro read
      rcases Prod.mk.inj (Except.ok.inj read) with ⟨rfl, rfl⟩
      rw [marked.1, marked.2]
      exact ⟨_, rfl, .pair digits high lowDigits isLow⟩
  | case7 text notHigh notLow =>
      intro read
      rcases Prod.mk.inj (Except.ok.inj read) with ⟨rfl, rfl⟩
      exact ⟨_, rfl, .unit digits (by simpa using notHigh) (by simpa using notLow)⟩
  | _ => nofun

theorem readEscape_sound {text rest : List Char} {character : Char}
    (read : readEscape text = .ok (character, rest)) :
    ∃ letters, text = letters ++ rest ∧ EscapeText letters character := by
  revert read
  fun_cases readEscape text with
  | case2 a b c d text unit digits => exact readSurrogate_sound digits
  | case5 letter text notUnit found named =>
      intro read
      cases read
      exact ⟨[letter], rfl, .simple named⟩
  | _ => nofun

theorem readEscape_complete {letters : List Char} {character : Char} (rest : List Char)
    (escaped : EscapeText letters character) :
    readEscape (letters ++ rest) = .ok (character, rest) := by
  cases escaped with
  | @simple letter character named =>
      have notUnit : letter ≠ 'u' := by
        rintro rfl
        cases named
      simp [readEscape, notUnit, named]
  | unit digits notHigh notLow => simp [readEscape, readSurrogate, digits, notHigh, notLow]
  | pair highDigits isHigh lowDigits isLow =>
      simp [readEscape, readSurrogate, highDigits, isHigh, lowDigits, isLow]

theorem readCharacters_sound (budget : Nat) :
    ∀ {text rest characters : List Char}, readCharacters budget text = .ok (characters, rest) →
      ∃ body, text = body ++ '"' :: rest ∧ StringBody body characters := by
  induction budget with
  | zero => intro text rest characters read; cases read
  | succ budget induction =>
      intro text rest characters read
      cases text with
      | nil => cases read
      | cons character text =>
          rw [readCharacters] at read
          split at read
          next quote =>
            cases read
            exact ⟨[], by rw [quote]; rfl, .nil⟩
          next notQuote =>
          split at read
          next backslash =>
            rcases bind_eq_ok.mp read with ⟨⟨first, text⟩, escape, read⟩
            rcases bind_eq_ok.mp read with ⟨⟨others, _⟩, tail, read⟩
            cases read
            rcases readEscape_sound escape with ⟨letters, rfl, escaped⟩
            rcases induction tail with ⟨body, rfl, spelled⟩
            exact ⟨'\\' :: letters ++ body, by simp [backslash], .cons (.escape escaped) spelled⟩
          next notBackslash =>
          split at read
          next => cases read
          next printable =>
            rcases bind_eq_ok.mp read with ⟨⟨others, _⟩, tail, read⟩
            cases read
            rcases induction tail with ⟨body, rfl, spelled⟩
            exact ⟨[character] ++ body, rfl,
              .cons (.plain notQuote notBackslash printable) spelled⟩

theorem readCharacters_complete {body characters : List Char} (rest : List Char)
    (spelled : StringBody body characters) :
    ∀ budget, body.length < budget →
      readCharacters budget (body ++ '"' :: rest) = .ok (characters, rest) := by
  induction spelled with
  | nil =>
      intro budget enough
      cases budget with
      | zero => cases enough
      | succ budget => rfl
  | @cons text body characters character first others induction =>
      intro budget enough
      cases budget with
      | zero => cases enough
      | succ budget =>
          cases first with
          | plain notQuote notBackslash printable =>
              have tail := induction budget (by simpa using enough)
              simp [readCharacters, notQuote, notBackslash, printable, tail]
          | @escape letters _ escaped =>
              rw [List.length_append, List.length_cons] at enough
              have tail := induction budget (by omega)
              have head := readEscape_complete (body ++ '"' :: rest) escaped
              simp [readCharacters, head, tail]

theorem readString_sound {text rest : List Char} {content : String}
    (read : readString text = .ok (content, rest)) :
    ∃ quoted, '"' :: text = quoted ++ rest ∧ Quoted quoted content := by
  rcases bind_eq_ok.mp read with ⟨⟨characters, _⟩, body, read⟩
  cases read
  rcases readCharacters_sound _ body with ⟨body, rfl, spelled⟩
  exact ⟨_, by simp, .intro spelled⟩

theorem readString_complete {body characters : List Char} (rest : List Char)
    (spelled : StringBody body characters) :
    readString (body ++ '"' :: rest) = .ok (String.ofList characters, rest) := by
  have read := readCharacters_complete rest spelled (body ++ '"' :: rest).length (by simp)
  rw [readString, read]
  rfl

end JsonQuery.Json
