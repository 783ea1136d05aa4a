import JsonQuery.Text.CodeRanges

/-!
Two classes of blanks: the four that may stand between tokens of a path or of JSON text, and the
Unicode property White_Space, which a bare name may not hold.
-/

namespace JsonQuery.Text

def isBlank (character : Char) : Bool :=
  character = ' ' || character = '\t' || character = '\n' || character = '\r'

def skipBlanks (text : List Char) : List Char :=
  text.dropWhile isBlank

def spaceRanges : List (Nat × Nat) :=
  [(0x9, 0xD), (0x20, 0x20), (0x85, 0x85), (0xA0, 0xA0), (0x1680, 0x1680), (0x2000, 0x200A),
   (0x2028, 0x2029), (0x202F, 0x202F), (0x205F, 0x205F), (0x3000, 0x3000)]

example : CodeRanges.ordered spaceRanges = true := by decide +kernel

/-- The Unicode property White_Space. -/
def isSpace (character : Char) : Bool :=
  CodeRanges.contains spaceRanges character.toNat

end JsonQuery.Text
