import JsonQuery.Json.Basic
import JsonQuery.Number.Shortest

/-!
The compact text of a JSON value: no blanks, members in their order, and only those characters
escaped that must be.
-/

namespace JsonQuery

def Json.escape (character : Char) : List Char :=
  if character = '"' then ['\\', '"']
  else if character = '\\' then ['\\', '\\']
  else if character.toNat < 0x20 then
    if character = '\n' then ['\\', 'n']
    else if character = '\t' then ['\\', 't']
    else if character = '\r' then ['\\', 'r']
    else if character.toNat = 0x8 then ['\\', 'b']
    else if character.toNat = 0xC then ['\\', 'f']
    else ['\\', 'u', '0', '0', Nat.digitChar (character.toNat / 16),
      Nat.digitChar (character.toNat % 16)]
  else [character]

def Json.writeString (text : String) : List Char :=
  '"' :: text.toList.flatMap escape ++ ['"']

def Number.write : Number → List Char
  | .integer value => Digits.ofInt value
  | .double value => value.shortest.write

namespace Json

mutual

def write : Json → List Char
  | .null => "null".toList
  | .bool true => "true".toList
  | .bool false => "false".toList
  | .number value => value.write
  | .string text => writeString text
  | .array elements => '[' :: writeElements elements ++ [']']
  | .object members => '{' :: writeMembers members ++ ['}']

def writeElements : List Json → List Char
  | [] => []
  | [element] => write element
  | element :: elements => write element ++ ',' :: writeElements elements

def writeMembers : List (String × Json) → List Char
  | [] => []
  | [(name, value)] => writeString name ++ ':' :: write value
  | (name, value) :: members =>
    writeString name ++ ':' :: write value ++ ',' :: writeMembers members

end

def text (value : Json) : String :=
  String.ofList value.write

end Json

end JsonQuery
