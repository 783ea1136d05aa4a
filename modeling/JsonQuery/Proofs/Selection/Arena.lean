import JsonQuery.Proofs.Selection.Direct
import JsonQuery.Proofs.Selection.DocumentOrder

/-!
The arena of a run. All visits are entered into one list in the order in which they are made, and
a visit refers to the one above it by its number there. A candidate is then no more than a number
or a group of numbers, and visits that have gone the same way share the entries of that way.

The arena also holds what is visited and not selected: the nodes that a descent passes, and the
elements that a filter turns down. Each entry but the first has a parent link, to an earlier entry
of the node that contains its own.
-/

namespace JsonQuery

/-- A visited node, and the number of the visit to the node above it. The visit with which a run
begins has none above it. -/
structure Entry (ν : Type) where
  node : ν
  parent : Option Nat

abbrev Arena (ν : Type) := List (Entry ν)

/-- A candidate whose visits are entries of an arena. -/
inductive Mark where
  | node (entry : Nat)
  | group (members : List Nat)

def Mark.flatten (marks : List Mark) : List Nat :=
  marks.flatMap fun
    | .node entry => [entry]
    | .group members => members

def collect {α β : Type} {m : Type → Type} [Monad m] (each : α → m (List β)) :
    List α → m (List β)
  | [] => return []
  | item :: items => do
    let first ← each item
    let others ← collect each items
    return first ++ others

/-- A computation that enters its visits into an arena. What it has entered before it fails stays
there. -/
def Entering (ν α : Type) := Arena ν → Traced α × Arena ν

namespace Entering

variable {ν α β : Type}

def goOn (next : α → Entering ν β) (run : Traced α × Arena ν) : Traced β × Arena ν :=
  (run.1 >>= fun answer => (next answer run.2).1,
    match run.1.outcome with
    | .ok answer => (next answer run.2).2
    | .error _ => run.2)

instance : Monad (Entering ν) where
  pure answer := fun arena => (pure answer, arena)
  bind first next := fun arena => goOn next (first arena)

def lift (found : Traced α) : Entering ν α := fun arena => (found, arena)

def entry? (entry : Nat) : Entering ν (Option (Entry ν)) := fun arena => (pure arena[entry]?, arena)

def enter (parent : Nat) (node : ν) : Entering ν Nat := fun arena =>
  (pure arena.length, arena ++ [⟨node, some parent⟩])

variable [Node ν]

def isAmong (node : ν) (entries : List Nat) : Entering ν Bool := fun arena =>
  (pure (entries.any fun entry => arena[entry]?.any fun other => Node.same other.node node), arena)

def enterBelow (choose : ν → List ν) (entry : Nat) : Entering ν (List Nat) := do
  match ← entry? entry with
  | some visit => collect (fun node => do return [← enter entry node]) (choose visit.node)
  | none => return []

def addMember (entry : Nat) (found : List Nat) : Option ν → Entering ν (List Nat)
  | none => return found
  | some member => do
    if ← isAmong member found then return found else return found ++ [← enter entry member]

def descend (context : Context) (name : String) :
    (levels : Nat) → (entry : Nat) → (found : List Nat) → Entering ν (List Nat)
  | 0, _, _ => lift do
    Traced.notice (.descentTooDeep name context.maxDepth)
    Traced.ofExcept (.error (.tooDeep context.maxDepth))
  | levels + 1, entry, found => do
    match ← entry? entry with
    | none => return found
    | some visit =>
      let member := match Node.kind visit.node with
        | .object => Node.field visit.node name
        | _ => none
      let found ← addMember entry found member
      (Node.children visit.node).foldlM (fun found child => do
        descend context name levels (← enter entry child) found) found

def addTo (entry : Nat) (entries : List Nat) : Entering ν (List Nat) := do
  match ← entry? entry with
  | none => return entries
  | some visit => if ← isAmong visit.node entries then return entries else return entries ++ [entry]

def parents (entry : Nat) : Entering ν (List Nat) := do
  match ← entry? entry with
  | some visit => return visit.parent.toList
  | none => return []

def atIndex (position : Int) : Mark → Entering ν (List Mark)
  | .group members => return (do
      let index ← resolveIndex? position members.length
      members[index]?.map Mark.node).toList
  | .node entry => do
    let found ← enterBelow (fun node => (Node.walk? node (.index position)).toList) entry
    return found.map Mark.node

def slice (start stop : Option Int) : Mark → Entering ν (List Mark)
  | .group members => return [.group (sliceOf start stop members)]
  | .node entry => do
    match (← entry? entry).map fun visit => Node.kind visit.node with
    | some .array =>
      return [.group (← enterBelow (fun node => sliceOf start stop (Node.children node)) entry)]
    | _ => return []

def keep (test : ν → Traced Bool) (entry : Nat) : Entering ν (List Nat) := do
  match ← entry? entry with
  | some visit => if ← lift (test visit.node) then return [entry] else return []
  | none => return []

/-- Keeps what passes a test: of the members of a group, of the elements of an array unless the
step fans out, and otherwise of the node alone. An element is entered before it is tested. -/
def filter (test : ν → Traced Bool) (fanOut : Bool) : Mark → Entering ν (List Nat)
  | .group members => collect (keep test) members
  | .node entry => do
    match fanOut, ← entry? entry with
    | false, some visit =>
      match Node.kind visit.node with
      | .array => collect (fun node => do keep test (← enter entry node)) (Node.children visit.node)
      | _ => keep test entry
    | _, _ => keep test entry

end Entering

variable {ν : Type} [Node ν]

open Entering

def Selector.enter (context : Context) (marks : List Mark) :
    Selector → Entering ν (List Mark)
  | .current => return marks
  | .index position => collect (atIndex position) marks
  | .slice start stop => collect (Entering.slice start stop) marks
  | .field name => do
    let found ← collect (enterBelow fun node => (Node.walk? node (.key name)).toList)
      (Mark.flatten marks)
    return found.map .node
  | .wildcard => do
    return (← collect (enterBelow Node.children) (Mark.flatten marks)).map .node
  | .recursive name => do
    let found ← (Mark.flatten marks).foldlM
      (fun found entry => descend context name (context.maxDepth + 1) entry found) []
    return found.map .node
  | .parent => do
    let parents ← collect parents (Mark.flatten marks)
    let found ← parents.foldlM (fun found parent => addTo parent found) []
    return found.map .node

def Predicate.enter (context : Context) (fanOut : Bool) (marks : List Mark) :
    Predicate → Entering ν (List Mark)
  | .index position => collect (atIndex position) marks
  | .slice start stop => collect (Entering.slice start stop) marks
  | .filter condition => do
    let kept ← collect (Entering.filter (fun node => condition.evaluate context node) fanOut)
      marks
    return kept.map .node

def Step.enter (context : Context) (marks : List Mark) (step : Step) :
    Entering ν (List Mark) := do
  let selected ← step.selector.enter context marks
  step.predicates.foldlM (fun selected predicate =>
    predicate.enter context step.selector.isFanOut selected) selected

def Query.enter (query : Query) (context : Context) (node : ν) :
    Traced (List Mark) × Arena ν :=
  query.steps.foldlM (Step.enter context) [.node 0] [⟨node, none⟩]

/-! ## Parent links -/

namespace Arena

/-- The first entry of an arena is the root of a tree. Every later entry has a parent link to an
earlier one, and its node is a member or an element of that entry's node. -/
structure Linked (root : Place) (arena : Arena Place) : Prop where
  first : arena[0]? = some ⟨root, none⟩
  later : ∀ entry visit, 0 < entry → arena[entry]? = some visit →
    ∃ parent above, visit.parent = some parent ∧ parent < entry ∧ arena[parent]? = some above ∧
      visit.node ∈ Node.children above.node

/-- The visit that an entry stands for: its node, and the nodes to which the links lead. -/
inductive Shows (arena : Arena Place) : Nat → Visit Place → Prop
  | first {entry : Nat} {node : Place} (there : arena[entry]? = some ⟨node, none⟩) :
      Shows arena entry ⟨node, []⟩
  | child {entry parent : Nat} {node : Place} {above : Visit Place}
      (there : arena[entry]? = some ⟨node, some parent⟩) (link : Shows arena parent above) :
      Shows arena entry (above.child node)

variable {arena after : Arena Place} {root node : Place} {entry : Nat} {visit : Visit Place}

theorem linked_start (root : Place) : Linked root [⟨root, none⟩] := by
  refine ⟨rfl, fun entry visit positive there => ?_⟩
  have inside := (List.getElem?_eq_some_iff.mp there).1
  rw [List.length_singleton] at inside
  omega

theorem getElem?_mono (grows : arena <+: after) {found : Entry Place}
    (there : arena[entry]? = some found) : after[entry]? = some found := by
  rcases List.getElem?_eq_some_iff.mp there with ⟨inside, rfl⟩
  exact List.prefix_iff_getElem?.mp grows entry inside

theorem Linked.enter (linked : arena.Linked root) {parent : Nat} {above : Entry Place}
    (isParent : arena[parent]? = some above) (isChild : node ∈ Node.children above.node) :
    Linked root (arena ++ [⟨node, some parent⟩]) := by
  have grows : arena <+: arena ++ [⟨node, some parent⟩] := List.prefix_append _ _
  refine ⟨getElem?_mono grows linked.first, fun entry visit positive there => ?_⟩
  by_cases inside : entry < arena.length
  · rw [List.getElem?_append_left inside] at there
    rcases linked.later entry visit positive there with
      ⟨parent, above, isLink, earlier, isAbove, isBelow⟩
    exact ⟨parent, above, isLink, earlier, getElem?_mono grows isAbove, isBelow⟩
  · have bound := (List.getElem?_eq_some_iff.mp there).1
    rw [List.length_append, List.length_singleton] at bound
    cases (show entry = arena.length by omega)
    rw [List.getElem?_concat_length] at there
    cases there
    exact ⟨parent, above, rfl, (List.getElem?_eq_some_iff.mp isParent).1,
      getElem?_mono grows isParent, isChild⟩

theorem Linked.of_prefix (linked : after.Linked root) (grows : arena <+: after)
    (begun : arena ≠ []) : arena.Linked root := by
  have same {position : Nat} (inside : position < arena.length) :
      arena[position]? = after[position]? := by
    rw [List.prefix_iff_getElem?.mp grows position inside, List.getElem?_eq_getElem inside]
  refine ⟨(same (List.length_pos_iff.mpr begun)).trans linked.first, ?_⟩
  intro entry visit positive there
  rcases linked.later entry visit positive (getElem?_mono grows there) with
    ⟨parent, above, isLink, earlier, isAbove, isBelow⟩
  have inside := (List.getElem?_eq_some_iff.mp there).1
  exact ⟨parent, above, isLink, earlier, (same (earlier.trans inside)).trans isAbove, isBelow⟩

theorem Shows.mono (shows : arena.Shows entry visit) (grows : arena <+: after) :
    after.Shows entry visit := by
  induction shows with
  | first there => exact .first (getElem?_mono grows there)
  | child there _ induction => exact .child (getElem?_mono grows there) induction

theorem Shows.getElem? (shows : arena.Shows entry visit) :
    ∃ parent, arena[entry]? = some ⟨visit.node, parent⟩ := by
  cases shows with
  | first there => exact ⟨_, there⟩
  | child there _ => exact ⟨_, there⟩

theorem Shows.way (linked : arena.Linked root) (shows : arena.Shows entry visit) :
    visit.node.listing.Sublist root.listing ∧
      match visit.parent? with
      | none => visit.node = root
      | some above => above.node.listing.Sublist root.listing ∧
          visit.node ∈ Node.children above.node := by
  induction shows with
  | @first entry node there =>
      rcases Nat.eq_zero_or_pos entry with rfl | positive
      · rw [linked.first] at there
        cases there
        exact ⟨.refl _, rfl⟩
      · rcases linked.later entry _ positive there with ⟨_, _, isLink, _⟩
        cases isLink
  | @child entry parent node above there link induction =>
      rcases Nat.eq_zero_or_pos entry with rfl | positive
      · rw [linked.first] at there
        cases there
      · rcases linked.later entry _ positive there with ⟨_, visit, isLink, _, isAbove, isChild⟩
        cases isLink
        rcases link.getElem? with ⟨_, isEntry⟩
        cases isAbove.symm.trans isEntry
        exact ⟨(Place.listing_child isChild).trans induction.1, induction.1, isChild⟩

end Arena

inductive Mark.Shows (arena : Arena Place) : Mark → Candidate Place → Prop
  | node {entry : Nat} {visit : Visit Place} (shows : arena.Shows entry visit) :
      Shows arena (.node entry) (.node visit)
  | group {entries : List Nat} {visits : List (Visit Place)}
      (all : List.Forall₂ arena.Shows entries visits) :
      Shows arena (.group entries) (.group visits)

end JsonQuery
