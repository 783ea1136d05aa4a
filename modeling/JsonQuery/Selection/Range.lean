/-!
Positions and bounds that may count from the end.
-/

namespace JsonQuery

def fromStart (length : Nat) (position : Int) : Int :=
  if position < 0 then length + position else position

def resolveIndex? (position : Int) (length : Nat) : Option Nat :=
  let resolved := fromStart length position
  if 0 ≤ resolved ∧ resolved < length then some resolved.toNat else none

theorem resolveIndex?_eq_some_iff {position : Int} {length index : Nat} :
    resolveIndex? position length = some index ↔
      index < length ∧ (position = index ∨ position = index - length) := by
  unfold resolveIndex? fromStart
  simp only [Option.ite_none_right_eq_some, Option.some.injEq]
  split <;> omega

def clampBound (length : Nat) (bound : Int) : Nat :=
  min (fromStart length bound).toNat length

/-- The half-open range between two bounds. A missing bound is the end on its side, and bounds in
the wrong order give an empty range. -/
def resolveSlice (start stop : Option Int) (length : Nat) : Nat × Nat :=
  let first := (start.map (clampBound length)).getD 0
  let past := (stop.map (clampBound length)).getD length
  (first, max first past)

example : resolveSlice (some (-2)) none 5 = (3, 5) := rfl
example : resolveSlice (some 4) (some 2) 5 = (4, 4) := rfl

def sliceOf (start stop : Option Int) (items : List α) : List α :=
  let (first, past) := resolveSlice start stop items.length
  (items.drop first).take (past - first)

end JsonQuery
