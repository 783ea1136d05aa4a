import JsonQuery.Filter.Evaluate
import JsonQuery.Json.Skip
import JsonQuery.Json.Write

/-!
The numeric limits of a document, and reading them from JSON text. The text is an object with any
of the limits as members, or an array of them in order. Members of other names are passed over by
the grammar alone.
-/

namespace JsonQuery

structure Limits where
  maxDepth : Nat
  cacheCapacity : Nat
  deriving DecidableEq

namespace Limits

def standard : Limits where
  maxDepth := defaultMaxDepth
  cacheCapacity := 256

def toJson (limits : Limits) : Json :=
  .object
    [("max_depth", .number (.integer limits.maxDepth)),
     ("cache_capacity", .number (.integer limits.cacheCapacity))]

/-! ## Reading limits -/

def readCount : Json.Reader Nat := fun text => do
  let (value, text) ← Json.readValue 0 text
  match value with
  | .number (.integer (.ofNat count)) => .ok (count, text)
  | _ => .error .invalidNumber

inductive Setting where
  | maxDepth (count : Nat)
  | cacheCapacity (count : Nat)
  | other

def readSetting : Json.Reader Setting
  | [] => .error .unexpectedEnd
  | quote :: text =>
    if quote = '"' then do
      let (name, text) ← Json.readString text
      match Text.skipBlanks text with
      | ':' :: text =>
        let text := Text.skipBlanks text
        if name = "max_depth" then do
          let (count, text) ← readCount text
          .ok (.maxDepth count, text)
        else if name = "cache_capacity" then do
          let (count, text) ← readCount text
          .ok (.cacheCapacity count, text)
        else do
          let (_, text) ← Json.skipValue text.length text
          .ok (.other, text)
      | [] => .error .unexpectedEnd
      | character :: _ => .error (.unexpectedCharacter character)
    else .error (.unexpectedCharacter quote)

/-- The only one of some counts, or the standard one if there is none. -/
def only? (standard : Nat) : List Nat → Option Nat
  | [] => some standard
  | [count] => some count
  | _ => none

def ofSettings? (settings : List Setting) : Option Limits := do
  let maxDepth ← only? standard.maxDepth <| settings.filterMap fun
    | .maxDepth count => some count
    | _ => none
  let cacheCapacity ← only? standard.cacheCapacity <| settings.filterMap fun
    | .cacheCapacity count => some count
    | _ => none
  some ⟨maxDepth, cacheCapacity⟩

def ofCounts? : List Nat → Option Limits
  | [] => some standard
  | [maxDepth] => some { standard with maxDepth }
  | [maxDepth, cacheCapacity] => some ⟨maxDepth, cacheCapacity⟩
  | _ => none

def read? (text : List Char) : Option Limits :=
  let settings := Json.readAll (fun text => match text with
    | '{' :: text => Json.readContainer readSetting '}' text
    | _ => .error .unexpectedEnd) text
  let counts := Json.readAll (fun text => match text with
    | '[' :: text => Json.readContainer readCount ']' text
    | _ => .error .unexpectedEnd) text
  match settings, counts with
  | .ok settings, _ => ofSettings? settings
  | _, .ok counts => ofCounts? counts
  | _, _ => none

end Limits

end JsonQuery
