import JsonQuery.Json.Read

/-!
Passing over a JSON value that is not wanted. Only the grammar is checked: such a value may nest to
any depth, its numbers may have any size, and its surrogates may stand alone.
-/

namespace JsonQuery.Json

def skipEscape : Reader Unit
  | [] => .error .unexpectedEnd
  | letter :: text =>
    if letter = 'u' then
      match text with
      | a :: b :: c :: d :: text =>
        if (codeUnit? a b c d).isSome then .ok ((), text) else .error .invalidEscape
      | _ => .error .unexpectedEnd
    else if (simpleEscape? letter).isSome then .ok ((), text)
    else .error .invalidEscape

def skipCharacters : (budget : Nat) → Reader Unit
  | 0, _ | _, [] => .error .unexpectedEnd
  | budget + 1, character :: text =>
    if character = '"' then .ok ((), text)
    else if character = '\\' then do
      let (_, text) ← skipEscape text
      skipCharacters budget text
    else if character.toNat < 0x20 then .error .controlCharacter
    else skipCharacters budget text

def skipString : Reader Unit
  | [] => .error .unexpectedEnd
  | quote :: text =>
    if quote = '"' then skipCharacters text.length text else .error (.unexpectedCharacter quote)

def skipName : Reader Unit := fun text => do
  let (_, text) ← skipString text
  match Text.skipBlanks text with
  | ':' :: text => .ok ((), Text.skipBlanks text)
  | [] => .error .unexpectedEnd
  | character :: _ => .error (.unexpectedCharacter character)

def skipValue : (levels : Nat) → Reader Unit
  | 0, _ | _, [] => .error .unexpectedEnd
  | levels + 1, mark :: text =>
    if mark = '[' then do
      let (_, text) ← readContainer (skipValue levels) ']' text
      .ok ((), text)
    else if mark = '{' then do
      let member : Reader Unit := fun text => do
        let (_, text) ← skipName text
        skipValue levels text
      let (_, text) ← readContainer member '}' text
      .ok ((), text)
    else if mark = '"' then skipString (mark :: text)
    else if mark = '-' ∨ mark.isDigit then do
      let (_, text) ← readNumberText (mark :: text)
      .ok ((), text)
    else do
      let (_, text) ← readValue 0 (mark :: text)
      .ok ((), text)

end JsonQuery.Json
