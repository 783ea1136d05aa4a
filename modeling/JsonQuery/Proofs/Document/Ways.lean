import JsonQuery.Proofs.Document.Edit
import JsonQuery.Proofs.Json.Locations

/-!
The locations that segments name for a mutation. A name is that of a member, or spells a position
of an array; a position may count from the end. A write creates objects where nothing stands, so
from there on names are those of members.
-/

namespace JsonQuery.Json

def branch? : Option Json → Segment → Option Branch
  | some (.array elements), segment => do
    let position ← (elementPosition segment).toOption
    (resolveIndex? position elements.length).map .element
  | some (.object _), .key name | none, .key name => some (.member name)
  | _, _ => none

/-- The location that segments name, one after the other, from where something may stand. -/
def locate? : Option Json → List Segment → Option (List Branch)
  | _, [] => some []
  | here, segment :: segments =>
    (branch? here segment).bind fun branch =>
      (locate? (here.bind (child? · branch)) segments).map (branch :: ·)

theorem branch?_array (elements : List Json) (segment : Segment) (path : String) :
    branch? (some (.array elements)) segment =
      (elementIndex elements.length segment path).toOption.map .element := by
  rw [branch?, elementIndex]
  cases elementPosition segment with
  | error error => rfl
  | ok position =>
      dsimp only [Except.toOption, ok_bind, Option.bind_eq_bind, Option.bind_some]
      cases resolveIndex? position elements.length <;> rfl

theorem locate?_cons {here : Option Json} {segment : Segment} {branch : Branch}
    (named : branch? here segment = some branch) (segments : List Segment) :
    locate? here (segment :: segments) =
      (locate? (here.bind (child? · branch)) segments).map (branch :: ·) := by
  rw [locate?, named, Option.bind_some]

theorem bind_at?_nil (here : Option Json) : here.bind (at? · []) = here := by
  cases here <;> rfl

theorem bind_at?_cons (here : Option Json) (branch : Branch) (location : List Branch) :
    here.bind (at? · (branch :: location)) =
      (here.bind (child? · branch)).bind (at? · location) := by
  rw [Option.bind_assoc]
  rfl

end JsonQuery.Json
