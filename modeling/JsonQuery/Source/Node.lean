import JsonQuery.Json.Basic
import JsonQuery.Path.Error
import JsonQuery.Path.Query
import JsonQuery.Selection.Range

/-!
Nodes of a JSON source. Queries are run against any type of nodes: places in a decoded tree, or
stretches of a text that has not been decoded.
-/

namespace JsonQuery

class Node (ν : Type) where
  kind : ν → Kind
  field : ν → String → Option ν
  element : ν → Nat → Option ν
  length : ν → Nat
  children : ν → List ν
  /-- Decodes the node and nothing beside it. -/
  decode : ν → Except QueryError Json
  /-- Whether two nodes are the same place of the same source. -/
  same : ν → ν → Bool

namespace Node

variable {ν : Type} [Node ν]

def isEmpty (node : ν) : Bool :=
  length node == 0

def follow? (node : ν) : Segment → Option ν
  | .key name => field node name
  | .index position =>
    let counted := fromStart (length node) position
    if counted < 0 then none else element node counted.toNat

def followAll? (node : ν) (segments : List Segment) : Option ν :=
  segments.foldlM follow? node

end Node

end JsonQuery
