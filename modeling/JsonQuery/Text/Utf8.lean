/-!
UTF-8 as lists of bytes. Characters are written with the standard encoder; reading is strict: it
refuses stray continuation bytes, overlong forms, surrogates and cut-off sequences.
-/

namespace JsonQuery.Utf8

def encode (characters : List Char) : List UInt8 :=
  characters.flatMap String.utf8EncodeChar

def width : List Char → Nat
  | [] => 0
  | character :: characters => character.utf8Size + width characters

def continuation? (byte : UInt8) : Option Nat :=
  if 0x80 ≤ byte ∧ byte < 0xC0 then some (byte.toNat - 0x80) else none

/-- The character with this code, if there is one and no shorter form could have held it. -/
def scalar? (least code : Nat) : Option Char :=
  if least ≤ code ∧ code.isValidChar then some (Char.ofNat code) else none

def decodeChar? : List UInt8 → Option (Char × List UInt8)
  | [] => none
  | first :: rest =>
    if first < 0x80 then
      some (Char.ofNat first.toNat, rest)
    else if first < 0xC0 then
      none
    else if first < 0xE0 then
      match rest with
      | second :: rest => do
        let low ← continuation? second
        let character ← scalar? 0x80 ((first.toNat - 0xC0) * 64 + low)
        some (character, rest)
      | _ => none
    else if first < 0xF0 then
      match rest with
      | second :: third :: rest => do
        let middle ← continuation? second
        let low ← continuation? third
        let character ← scalar? 0x800 (((first.toNat - 0xE0) * 64 + middle) * 64 + low)
        some (character, rest)
      | _ => none
    else if first < 0xF8 then
      match rest with
      | second :: third :: fourth :: rest => do
        let high ← continuation? second
        let middle ← continuation? third
        let low ← continuation? fourth
        let character ← scalar? 0x10000
          ((((first.toNat - 0xF0) * 64 + high) * 64 + middle) * 64 + low)
        some (character, rest)
      | _ => none
    else
      none

def decodeWithin? : (budget : Nat) → List UInt8 → Option (List Char)
  | _, [] => some []
  | 0, _ :: _ => none
  | budget + 1, bytes => do
    let (character, rest) ← decodeChar? bytes
    let characters ← decodeWithin? budget rest
    some (character :: characters)

def decode? (bytes : List UInt8) : Option (List Char) :=
  decodeWithin? bytes.length bytes

end JsonQuery.Utf8
