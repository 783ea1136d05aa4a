import JsonQuery.Json.Read
import JsonQuery.Source.Node
import JsonQuery.Source.Scanner

/-!
Stretches of undecoded JSON text as nodes. Going to a member or an element passes over the values
before it, and only the node that is asked for is ever decoded.
-/

namespace JsonQuery

/-- A value in a text: where it starts, the text from there on, and how many bytes are its own. -/
structure Span where
  start : Nat
  text : List UInt8
  size : Nat

namespace Span

def at? (start : Nat) (text : List UInt8) : Option Span :=
  (Scanner.valueSize? text).map fun size => ⟨start, text, size⟩

def root? (source : List UInt8) : Option Span :=
  let blanks := Scanner.blanks source
  at? blanks (source.drop blanks)

def bytes (span : Span) : List UInt8 :=
  span.text.take span.size

def stop (span : Span) : Nat :=
  span.start + span.size

def kind (span : Span) : Kind :=
  match span.text with
  | [] => .number
  | byte :: _ =>
    if byte == 0x7B then .object
    else if byte == 0x5B then .array
    else if byte == Scanner.quote then .string
    else if byte == 0x74 || byte == 0x66 then .bool
    else if byte == 0x6E then .null
    else .number

/-! ## Items of a container -/

def memberAt? (start : Nat) : (text : List UInt8) → Option (List UInt8 × Span)
  | [] => none
  | byte :: inner =>
    if byte == Scanner.quote then do
      let size ← Scanner.stringSize? inner
      let rest := inner.drop size
      let blanks := Scanner.blanks rest
      match rest.drop blanks with
      | [] => none
      | mark :: rest =>
        if mark == Scanner.colon then
          let before := Scanner.blanks rest
          let offset := start + 1 + size + blanks + 1 + before
          (at? offset (rest.drop before)).map fun value => (byte :: inner.take size, value)
        else none
    else none

/-- At most `budget` items that follow one another, each up to the end of its value. What stands
between them is passed over without a look at how they are separated. -/
def itemsFrom (itemAt? : Nat → List UInt8 → Option α) (value : α → Span) :
    (budget start : Nat) → (text : List UInt8) → List α
  | 0, _, _ => []
  | budget + 1, start, text =>
    let skipped := Scanner.separator text
    match itemAt? (start + skipped) (text.drop skipped) with
    | some item =>
      item :: itemsFrom itemAt? value budget (value item).stop
        ((value item).text.drop (value item).size)
    | none => []

def elements (span : Span) : List Span :=
  match span.kind with
  | .array => itemsFrom at? id span.text.length (span.start + 1) (span.text.drop 1)
  | _ => []

def members (span : Span) : List (List UInt8 × Span) :=
  match span.kind with
  | .object => itemsFrom memberAt? Prod.snd span.text.length (span.start + 1) (span.text.drop 1)
  | _ => []

def nameMatches (quoted : List UInt8) (name : String) : Bool :=
  let inner := (quoted.drop 1).dropLast
  if inner.contains Scanner.backslash then Json.decodeString? quoted == some name
  else inner == Utf8.encode name.toList

/-! ## Nodes -/

def field? (span : Span) (name : String) : Option Span :=
  ((span.members.filter fun member => nameMatches member.1 name).getLast?).map Prod.snd

def children (span : Span) : List Span :=
  match span.kind with
  | .array => span.elements
  | _ => span.members.map Prod.snd

def decode (span : Span) : Except QueryError Json :=
  (Json.decode span.bytes).mapError fun defect => .undecodable defect.message

end Span

instance : Node Span where
  kind := Span.kind
  field := Span.field?
  element span position := span.elements[position]?
  length span := span.children.length
  children := Span.children
  decode := Span.decode
  same left right := left.start == right.start

end JsonQuery
