import JsonQuery.Proofs.Selection.Words
import JsonQuery.Proofs.Source.Places

/-!
Positions and slices in words of 64 bits, one operation at a time. Every operation that can fail on
words is one that may end in a fault here. With fewer than 2 ^ 63 places none does, whatever the
position and the bounds are, and the results are those of the integers.
-/

namespace JsonQuery

inductive Fault where
  | overflow
  | inverted
  | outOfBounds

namespace Checked

/-! ## Operations -/

def add (left right : Int64) : Except Fault Int64 :=
  if left.toBitVec.saddOverflow right.toBitVec then .error .overflow else .ok (left + right)

def clamp (least greatest word : Int64) : Except Fault Int64 :=
  if greatest < least then .error .inverted
  else if word < least then .ok least
  else if greatest < word then .ok greatest
  else .ok word

/-- The bits of a word as a count, so that a negative word becomes a large one. -/
def count (word : Int64) : Nat :=
  word.toUInt64.toNat

def item (items : List α) (index : Nat) : Except Fault α :=
  match items[index]? with
  | some item => .ok item
  | none => .error .outOfBounds

def range (items : List α) (bounds : Nat × Nat) : Except Fault (List α) :=
  if bounds.1 ≤ bounds.2 ∧ bounds.2 ≤ items.length then
    .ok ((items.drop bounds.1).take (bounds.2 - bounds.1))
  else .error .outOfBounds

/-! ## Positions and bounds -/

def fromStart (length : Nat) (position : Int64) : Except Fault Int64 :=
  if position < 0 then add (Int64.ofNat length) position else .ok position

def resolveIndex (position : Int64) (length : Nat) : Except Fault (Option Nat) := do
  let resolved ← fromStart length position
  return if 0 ≤ resolved ∧ resolved < Int64.ofNat length then some (count resolved) else none

def clampBound (length : Nat) (bound : Int64) : Except Fault Nat := do
  let resolved ← fromStart length bound
  let clamped ← clamp 0 (Int64.ofNat length) resolved
  return count clamped

def resolveSlice (start stop : Option Int64) (length : Nat) : Except Fault (Nat × Nat) := do
  let first ← start.elim (.ok 0) (clampBound length)
  let past ← stop.elim (.ok length) (clampBound length)
  -- Bounds in the wrong order give an empty range, which may still be taken of a list.
  return (first, max past first)

/-! ## Candidates -/

section Candidates

variable {ν : Type} [Node ν]

def atIndex (position : Int64) : Candidate ν → Except Fault (Option (Candidate ν))
  | .group members => do
    match ← resolveIndex position members.length with
    | some index => return some (.node (← item members index))
    | none => return none
  | .node visit =>
    match Node.kind visit.node with
    | .array => do
      match ← resolveIndex position (Node.length visit.node) with
      | some index =>
        return (Node.element visit.node index).map fun found => .node (visit.child found)
      | none => return none
    | _ => return none

/-- The elements of an array or members of a group between two bounds, as a group. Elements are
skipped and taken one by one, members are a range of their list. -/
def slice (start stop : Option Int64) : Candidate ν → Except Fault (Option (Candidate ν))
  | .group members => do
    let bounds ← resolveSlice start stop members.length
    return some (.group (← range members bounds))
  | .node visit =>
    match Node.kind visit.node with
    | .array => do
      let bounds ← resolveSlice start stop (Node.length visit.node)
      return some (.group ((visit.children.drop bounds.1).take (bounds.2 - bounds.1)))
    | _ => return none

end Candidates

/-! ## Words and integers -/

theorem count_of_le {word : Int64} (notNegative : 0 ≤ word) : count word = word.toInt.toNat := by
  rw [count, Int64.toNat_toUInt64_of_le notNegative, Int64.toNat_toInt]

theorem clamp_of_le {least greatest : Int64} (ordered : least ≤ greatest) (word : Int64) :
    ∃ clamped, clamp least greatest word = .ok clamped ∧
      clamped.toInt = max least.toInt (min word.toInt greatest.toInt) := by
  simp only [Int64.le_iff_toInt_le] at ordered
  simp only [clamp, Int64.lt_iff_toInt_lt]
  rw [if_neg (Int.not_lt.mpr ordered)]
  split
  next below => exact ⟨least, rfl, by omega⟩
  next notBelow =>
    split
    next above => exact ⟨greatest, rfl, by omega⟩
    next => exact ⟨word, rfl, by omega⟩

section Words

variable {length : Nat} (short : length < 0x8000000000000000)

include short

theorem fromStart_eq (position : Int64) :
    fromStart length position = .ok (Word.fromStart length position) := by
  unfold fromStart Word.fromStart
  split
  next fromTheEnd =>
    rw [add, Word.not_overflow short position fromTheEnd]
    rfl
  next => rfl

theorem resolveIndex_eq (position : Int64) :
    resolveIndex position length = .ok (resolveIndex? position.toInt length) := by
  have lengthExact : (Int64.ofNat length).toInt = length := Int64.toInt_ofNat_of_lt short
  rw [resolveIndex, fromStart_eq short, resolveIndex?, ← Word.toInt_fromStart short]
  simp only [ok_bind, pure, Except.pure, Int64.le_iff_toInt_le, Int64.lt_iff_toInt_lt, lengthExact,
    Int64.toInt_zero]
  split
  next inside => rw [count_of_le (Int64.le_iff_toInt_le.mpr inside.1)]
  next => rfl

theorem clampBound_eq (bound : Int64) :
    clampBound length bound = .ok (JsonQuery.clampBound length bound.toInt) := by
  have lengthExact : (Int64.ofNat length).toInt = length := Int64.toInt_ofNat_of_lt short
  -- The clamp is in order because the length is not taken for a negative word.
  have ordered : 0 ≤ Int64.ofNat length := by
    rw [Int64.le_iff_toInt_le, lengthExact, Int64.toInt_zero]
    omega
  rcases clamp_of_le ordered (Word.fromStart length bound) with ⟨clamped, isClamped, nearest⟩
  rw [lengthExact, Int64.toInt_zero, Word.toInt_fromStart short] at nearest
  have notNegative : 0 ≤ clamped := by
    rw [Int64.le_iff_toInt_le, Int64.toInt_zero]
    omega
  simp only [clampBound, fromStart_eq short, ok_bind, isClamped, pure, Except.pure,
    count_of_le notNegative, nearest, JsonQuery.clampBound]
  congr 1
  omega

theorem elim_clampBound (missing : Nat) (bound : Option Int64) :
    bound.elim (.ok missing) (clampBound length) =
      .ok (((bound.map Int64.toInt).map (JsonQuery.clampBound length)).getD missing) := by
  cases bound with
  | none => rfl
  | some bound => exact clampBound_eq short bound

theorem resolveSlice_eq (start stop : Option Int64) :
    resolveSlice start stop length =
      .ok (JsonQuery.resolveSlice (start.map Int64.toInt) (stop.map Int64.toInt) length) := by
  simp only [resolveSlice, elim_clampBound short, ok_bind, pure, Except.pure,
    JsonQuery.resolveSlice, Nat.max_comm]

end Words

end Checked

/-! ## Ranges -/

def boundOf (length missing : Nat) : Option Int → Int
  | none => missing
  | some bound => max 0 (min (if bound < 0 then length + bound else bound) length)

/-- The range that two bounds stand for, in integers. It is empty where they are in the wrong
order. -/
structure IsRange (start stop : Option Int) (length : Nat) (bounds : Nat × Nat) : Prop where
  ordered : bounds.1 ≤ bounds.2
  inside : bounds.2 ≤ length
  first : (bounds.1 : Int) = boundOf length 0 start
  size : (bounds.2 - bounds.1 : Int) =
    max 0 (boundOf length length stop - boundOf length 0 start)

theorem boundOf_eq (length missing : Nat) (bound : Option Int) :
    boundOf length missing bound = ((bound.map (clampBound length)).getD missing : Nat) := by
  cases bound with
  | none => rfl
  | some bound =>
      simp only [boundOf, clampBound, fromStart, Option.map_some, Option.getD_some]
      omega

theorem boundOf_le {length missing : Nat} (within : missing ≤ length) (bound : Option Int) :
    boundOf length missing bound ≤ length := by
  cases bound with
  | none => exact Int.ofNat_le.mpr within
  | some bound => simp only [boundOf]; omega

theorem isRange_resolveSlice (start stop : Option Int) (length : Nat) :
    IsRange start stop length (resolveSlice start stop length) := by
  have first := boundOf_eq length 0 start
  have past := boundOf_eq length length stop
  have firstInside := boundOf_le (Nat.zero_le length) start
  have pastInside := boundOf_le (Nat.le_refl length) stop
  unfold resolveSlice
  -- From here on all that counts is where the two bounds lie.
  generalize (start.map (clampBound length)).getD 0 = low at *
  generalize (stop.map (clampBound length)).getD length = high at *
  constructor <;> dsimp only <;> omega

def Keeps (bounds : Nat × Nat) (itemAt? : Nat → Option α) (items : List α) : Prop :=
  items.length = bounds.2 - bounds.1 ∧
    ∀ offset < items.length, items[offset]? = itemAt? (bounds.1 + offset)

theorem keeps_sliceOf (start stop : Option Int) (items : List α) :
    Keeps (resolveSlice start stop items.length) (fun index => items[index]?)
      (sliceOf start stop items) := by
  have inside := (isRange_resolveSlice start stop items.length).inside
  have length : (sliceOf start stop items).length =
      (resolveSlice start stop items.length).2 - (resolveSlice start stop items.length).1 := by
    simp only [sliceOf, List.length_take, List.length_drop]
    omega
  refine ⟨length, fun offset within => ?_⟩
  rw [length] at within
  simp only [sliceOf, List.getElem?_take_of_lt within, List.getElem?_drop]

/-! ## Candidates -/

section Candidates

variable {ν : Type} [Node ν]

def Candidate.extent : Candidate ν → Nat
  | .group members => members.length
  | .node visit => Node.length visit.node

namespace Checked

theorem range_sliceOf (start stop : Option Int) (items : List α) :
    range items (JsonQuery.resolveSlice start stop items.length) =
      .ok (sliceOf start stop items) := by
  have bounds := isRange_resolveSlice start stop items.length
  exact if_pos ⟨bounds.ordered, bounds.inside⟩

theorem atIndex_group {members : List (Visit ν)} (short : members.length < 0x8000000000000000)
    (position : Int64) :
    atIndex position (.group members) =
      .ok ((Candidate.group members).atIndex? position.toInt) := by
  rw [atIndex, resolveIndex_eq short, Candidate.atIndex?]
  cases found : resolveIndex? position.toInt members.length with
  | none => rfl
  | some index =>
      have inside := (resolveIndex?_eq_some_iff.mp found).1
      simp [item, List.getElem?_eq_getElem inside, pure, Except.pure]

theorem atIndex_node {visit : Visit ν} (short : Node.length visit.node < 0x8000000000000000)
    (position : Int64) :
    atIndex position (.node visit) = .ok ((Candidate.node visit).atIndex? position.toInt) := by
  cases kind : Node.kind visit.node with
  | array =>
      simp only [atIndex, Candidate.atIndex?, kind, resolveIndex_eq short, ok_bind]
      cases resolveIndex? position.toInt (Node.length visit.node) with
      | none => rfl
      | some index =>
          cases found : Node.element visit.node index <;> simp [found, pure, Except.pure]
  | null | bool | number | string | object =>
      simp only [atIndex, Candidate.atIndex?, kind, pure, Except.pure]

theorem slice_group {members : List (Visit ν)} (short : members.length < 0x8000000000000000)
    (start stop : Option Int64) :
    slice start stop (.group members) =
      .ok ((Candidate.group members).slice? (start.map Int64.toInt) (stop.map Int64.toInt)) := by
  simp only [slice, resolveSlice_eq short, ok_bind, range_sliceOf]
  rfl

theorem slice_node (listed : Node.Listed ν) {visit : Visit ν}
    (short : Node.length visit.node < 0x8000000000000000) (start stop : Option Int64) :
    slice start stop (.node visit) =
      .ok ((Candidate.node visit).slice? (start.map Int64.toInt) (stop.map Int64.toInt)) := by
  have length := listed.length_children visit
  cases kind : Node.kind visit.node with
  | array =>
      rw [length] at short
      simp only [slice, Candidate.slice?, kind, length, resolveSlice_eq short, ok_bind]
      rfl
  | null | bool | number | string | object =>
      simp only [slice, Candidate.slice?, kind, pure, Except.pure]

structure Exact (ν : Type) [Node ν] : Prop where
  atIndex (candidate : Candidate ν) (position : Int64) :
    candidate.extent < 0x8000000000000000 →
      Checked.atIndex position candidate = .ok (candidate.atIndex? position.toInt)
  slice (candidate : Candidate ν) (start stop : Option Int64) :
    candidate.extent < 0x8000000000000000 →
      Checked.slice start stop candidate =
        .ok (candidate.slice? (start.map Int64.toInt) (stop.map Int64.toInt))
  members (members : List (Visit ν)) (start stop : Option Int) :
    ∃ kept, (Candidate.group members).slice? start stop = some (.group kept) ∧
      Keeps (JsonQuery.resolveSlice start stop members.length) (fun index => members[index]?) kept
  elements (visit : Visit ν) (start stop : Option Int) : Node.kind visit.node = .array →
    ∃ kept, (Candidate.node visit).slice? start stop = some (.group kept) ∧
      Keeps (JsonQuery.resolveSlice start stop (Node.length visit.node))
        (fun index => (Node.element visit.node index).map visit.child) kept

theorem exact_of_listed (listed : Node.Listed ν) : Exact ν where
  atIndex candidate position short := by
    cases candidate with
    | group members => exact atIndex_group short position
    | node visit => exact atIndex_node short position
  slice candidate start stop short := by
    cases candidate with
    | group members => exact slice_group short start stop
    | node visit => exact slice_node listed short start stop
  members members start stop := ⟨_, rfl, keeps_sliceOf start stop members⟩
  elements visit start stop isArray := by
    have length := listed.length_children visit
    refine ⟨sliceOf start stop visit.children, by simp only [Candidate.slice?, isArray], ?_⟩
    simp only [length, ← listed.getElem?_children isArray]
    exact keeps_sliceOf start stop visit.children

end Checked

end Candidates

/-- In words of 64 bits no step of finding a position or a slice faults, whatever the position and
the bounds are, where there are fewer than 2 ^ 63 places. A position names the place that it counts
from the start, or from the end if it is negative, and none if there is no such place. A slice is
the range between its bounds, each counted in the same way and moved into the length, and it keeps
exactly the places of this range in their order, of a group as of an array. -/
theorem positions_exact :
    (∀ (length : Nat) (position : Int64), length < 0x8000000000000000 →
      ∃ found, Checked.resolveIndex position length = .ok found ∧
        found = resolveIndex? position.toInt length ∧
        ∀ index, found = some index ↔ index < length ∧
          (0 ≤ position → (index : Int) = position.toInt) ∧
          (position < 0 → (index : Int) = length + position.toInt)) ∧
    (∀ (length : Nat) (start stop : Option Int64), length < 0x8000000000000000 →
      ∃ bounds, Checked.resolveSlice start stop length = .ok bounds ∧
        bounds = resolveSlice (start.map Int64.toInt) (stop.map Int64.toInt) length ∧
        IsRange (start.map Int64.toInt) (stop.map Int64.toInt) length bounds) ∧
    Checked.Exact Place ∧ Checked.Exact Span := by
  refine ⟨?_, ?_, Checked.exact_of_listed Place.listed, Checked.exact_of_listed Span.listed⟩
  · intro length position short
    refine ⟨_, Checked.resolveIndex_eq short position, rfl, fun index => ?_⟩
    rw [resolveIndex?_eq_some_iff, Int64.le_iff_toInt_le, Int64.lt_iff_toInt_lt, Int64.toInt_zero]
    omega
  · intro length start stop short
    exact ⟨_, Checked.resolveSlice_eq short start stop, rfl, isRange_resolveSlice _ _ length⟩

theorem positions_exact_extremes :
    let visit : Visit Place := ⟨.root (.array [.null, .bool true, .bool false]), []⟩
    Checked.resolveIndex Int64.minValue 3 = .ok none ∧
      Checked.resolveIndex (-1) 3 = .ok (some 2) ∧
      Checked.resolveSlice (some Int64.minValue) (some (-2)) 3 = .ok (0, 1) ∧
      Checked.slice (some 1) (some Int64.maxValue) (.node visit) =
        .ok (some (.group [visit.child ⟨.bool true, [1]⟩, visit.child ⟨.bool false, [2]⟩])) := by
  intro visit
  rcases positions_exact with ⟨positions, slices, places, _⟩
  rcases positions 3 Int64.minValue (by decide) with ⟨_, least, rfl, _⟩
  rcases positions 3 (-1) (by decide) with ⟨_, last, rfl, _⟩
  rcases slices 3 (some Int64.minValue) (some (-2)) (by decide) with ⟨_, bounds, rfl, _⟩
  have sliced := places.slice (.node visit) (some 1) (some Int64.maxValue) (by decide)
  exact ⟨least, last, bounds, sliced⟩

end JsonQuery
