import JsonQuery.Document.Error
import JsonQuery.Path.Query
import JsonQuery.Selection.Range
import JsonQuery.Text.Digits

/-!
Changing a tree in place at the end of a way of segments. An edit leaves a tree behind whether or
not it succeeds, so what it has done on the way before it fails is there to be seen. Writing
therefore walks the way beforehand without touching the tree.
-/

namespace JsonQuery

def Segment.container : Segment → Expected
  | .key _ => .object
  | .index _ => .array

namespace Json

def elementPosition : Segment → Except DocumentError Int
  | .index position => .ok position
  | .key name =>
    match (Digits.readInteger? name.toList).filter (0 ≤ ·) with
    | some position => .ok position
    | none => .error (.typeMismatch .object .array)

def elementIndex (length : Nat) (segment : Segment) (path : String) :
    Except DocumentError Nat := do
  let position ← elementPosition segment
  match resolveIndex? position length with
  | some index => .ok index
  | none => .error (.notFound path)

/-! ## Writing -/

/-- Where a segment leads on the way of a write. Nothing stands where the write would create an
object. -/
def checkStep (path : String) : Option Json → Segment → Except DocumentError (Option Json)
  | none, .key _ => .ok none
  | some (.object members), .key name => .ok (members.lookup name)
  | none, .index _ | some (.object _), .index _ => .error (.typeMismatch .array .object)
  | some (.array elements), segment => do
    let index ← elementIndex elements.length segment path
    .ok elements[index]?
  | some found, segment => .error (.mismatch segment.container found)

def checkSet (path : String) (segments : List Segment) (tree : Json) :
    Except DocumentError Unit := do
  let _ ← segments.foldlM (checkStep path) (some tree)
  .ok ()

/-- Writes a value at the end of a way. Members that are missing on the way are created as empty
objects before the write goes on in them. -/
def writeAt (value : Json) (path : String) :
    List Segment → Json → Except DocumentError Unit × Json
  | [], _ => (.ok (), value)
  | .key name :: segments, .object members =>
    let member := (members.lookup name).getD (.object [])
    let (outcome, changed) := writeAt value path segments member
    (outcome, .object (putMember name changed members))
  | .index _ :: _, .object members =>
    (.error (.typeMismatch .array .object), .object members)
  | segment :: segments, .array elements =>
    match elementIndex elements.length segment path with
    | .error error => (.error error, .array elements)
    | .ok index =>
      match elements[index]? with
      | some element =>
        let (outcome, changed) := writeAt value path segments element
        (outcome, .array (elements.set index changed))
      | none => (.error (.notFound path), .array elements)
  | segment :: _, found => (.error (.mismatch segment.container found), found)

def set (value : Json) (path : String) (segments : List Segment) (tree : Json) :
    Except DocumentError Unit × Json :=
  match checkSet path segments tree with
  | .error error => (.error error, tree)
  | .ok () => writeAt value path segments tree

/-! ## Deleting -/

def delete (path : String) : List Segment → Json → Except DocumentError Unit × Json
  | [], tree => (.error (.rootDeleted path), tree)
  | [.key name], .object members =>
    match members.lookup name with
    | some _ => (.ok (), .object (eraseMember name members))
    | none => (.error (.notFound path), .object members)
  | .key name :: segments, .object members =>
    match members.lookup name with
    | some member =>
      let (outcome, changed) := delete path segments member
      (outcome, .object (putMember name changed members))
    | none => (.error (.notFound path), .object members)
  | segment :: segments, .array elements =>
    match elementIndex elements.length segment path with
    | .error error => (.error error, .array elements)
    | .ok index =>
      match segments, elements[index]? with
      | [], some _ => (.ok (), .array (elements.eraseIdx index))
      | _ :: _, some element =>
        let (outcome, changed) := delete path segments element
        (outcome, .array (elements.set index changed))
      | _, none => (.error (.notFound path), .array elements)
  | _ :: _, found => (.error (.notFound path), found)

end Json

end JsonQuery
