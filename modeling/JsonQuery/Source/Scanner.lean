/-!
Finding where values end in JSON text without decoding it. The scanner looks at brackets, quotes
and backslashes alone. It takes the text to be well-formed, and where that turns out to be wrong
it answers that there is no value.
-/

namespace JsonQuery.Scanner

def quote : UInt8 := 0x22
def backslash : UInt8 := 0x5C
def comma : UInt8 := 0x2C
def colon : UInt8 := 0x3A

def isOpening (byte : UInt8) : Bool := byte == 0x7B || byte == 0x5B
def isClosing (byte : UInt8) : Bool := byte == 0x7D || byte == 0x5D

def isBlank (byte : UInt8) : Bool :=
  byte == 0x20 || byte == 0x09 || byte == 0x0A || byte == 0x0D

def isDigit (byte : UInt8) : Bool := 0x30 ≤ byte && byte ≤ 0x39

def isNumberByte (byte : UInt8) : Bool :=
  isDigit byte || byte == 0x2D || byte == 0x2B || byte == 0x2E || byte == 0x65 || byte == 0x45

def blanks (text : List UInt8) : Nat :=
  (text.takeWhile isBlank).length

def separator (text : List UInt8) : Nat :=
  let before := blanks text
  match text.drop before with
  | byte :: rest => if byte == comma then before + 1 + blanks rest else before
  | [] => before

def stringSize? : List UInt8 → Option Nat
  | [] => none
  | byte :: text =>
    if byte == quote then some 1
    else if byte == backslash then
      match text with
      | [] => none
      | _ :: text => (stringSize? text).map (· + 2)
    else (stringSize? text).map (· + 1)

/-- The number of bytes up to and with the bracket that closes the outermost of `depth` open
brackets. Both kinds of brackets count alike, except within strings. -/
def closingSize? : (inString : Bool) → (depth : Nat) → List UInt8 → Option Nat
  | _, _, [] => none
  | true, depth, byte :: text =>
    if byte == quote then (closingSize? false depth text).map (· + 1)
    else if byte == backslash then
      match text with
      | [] => none
      | _ :: text => (closingSize? true depth text).map (· + 2)
    else (closingSize? true depth text).map (· + 1)
  | false, depth, byte :: text =>
    if byte == quote then (closingSize? true depth text).map (· + 1)
    else if isOpening byte then (closingSize? false (depth + 1) text).map (· + 1)
    else if isClosing byte then
      match depth with
      | 0 => none
      | 1 => some 1
      | depth + 2 => (closingSize? false (depth + 1) text).map (· + 1)
    else (closingSize? false depth text).map (· + 1)

def wordSize? (word text : List UInt8) : Option Nat :=
  if word.isPrefixOf text then some word.length else none

def nullWord : List UInt8 := [0x6E, 0x75, 0x6C, 0x6C]
def trueWord : List UInt8 := [0x74, 0x72, 0x75, 0x65]
def falseWord : List UInt8 := [0x66, 0x61, 0x6C, 0x73, 0x65]

def valueSize? : List UInt8 → Option Nat
  | [] => none
  | byte :: text =>
    if byte == quote then (stringSize? text).map (· + 1)
    else if isOpening byte then (closingSize? false 1 text).map (· + 1)
    else if byte == 0x74 then wordSize? trueWord (byte :: text)
    else if byte == 0x66 then wordSize? falseWord (byte :: text)
    else if byte == 0x6E then wordSize? nullWord (byte :: text)
    else if byte == 0x2D || isDigit byte then
      some (1 + (text.takeWhile isNumberByte).length)
    else none

end JsonQuery.Scanner
