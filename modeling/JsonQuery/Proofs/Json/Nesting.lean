import JsonQuery.Proofs.Json.Locations

/-!
How deep arrays and objects nest in a value. What is read from a text nests no deeper than the
reader goes, and merging repeated names does not make it deeper.
-/

namespace JsonQuery.Json

/-- Arrays and objects nest at most `levels` deep. -/
def NestsWithin : (levels : Nat) → Json → Prop
  | 0, value => value.isContainer = false
  | levels + 1, .array elements => ∀ element ∈ elements, NestsWithin levels element
  | levels + 1, .object members => ∀ member ∈ members, NestsWithin levels member.2
  | _ + 1, _ => True

theorem nestsWithin_of_not_container {levels : Nat} {value : Json}
    (scalar : value.isContainer = false) : value.NestsWithin levels := by
  cases levels with
  | zero => exact scalar
  | succ levels => cases value <;> trivial

theorem NestsWithin.elements {levels : Nat} {elements : List Json}
    (within : (array elements).NestsWithin levels) :
    ∃ less, levels = less + 1 ∧ ∀ element ∈ elements, element.NestsWithin less := by
  cases levels with
  | zero => cases within
  | succ less => exact ⟨less, rfl, within⟩

theorem NestsWithin.members {levels : Nat} {members : List (String × Json)}
    (within : (object members).NestsWithin levels) :
    ∃ less, levels = less + 1 ∧ ∀ member ∈ members, member.2.NestsWithin less := by
  cases levels with
  | zero => cases within
  | succ less => exact ⟨less, rfl, within⟩

theorem NestsWithin.succ {levels : Nat} : ∀ {value : Json}, value.NestsWithin levels →
    value.NestsWithin (levels + 1) := by
  induction levels with
  | zero => exact nestsWithin_of_not_container
  | succ levels induction =>
      intro value within
      cases value with
      | array elements => exact fun element there => induction (within element there)
      | object members => exact fun member there => induction (within member there)
      | null | bool | number | string => trivial

theorem NestsWithin.mono {levels more : Nat} (enough : levels ≤ more) {value : Json}
    (within : value.NestsWithin levels) : value.NestsWithin more := by
  induction enough with
  | refl => exact within
  | step _ induction => exact induction.succ

/-- A text that spells a tree with brackets nested to a depth has them nested so in the tree. -/
theorem Spells.nestsWithin : ∀ {levels : Nat} {text : List Char} {tree : Json},
    Spells levels text tree → tree.NestsWithin levels := by
  have ofScalar {levels : Nat} {text : List Char} {tree : Json} (scalar : Scalar text tree) :
      tree.NestsWithin levels :=
    nestsWithin_of_not_container (by cases scalar <;> rfl)
  intro levels
  induction levels with
  | zero => exact ofScalar
  | succ levels induction =>
      intro text tree spelled
      rcases spelled with scalar | composite
      · exact ofScalar scalar
      · cases composite with
        | array inside =>
            intro element there
            rcases inside.exists_text there with ⟨part, isPart, _⟩
            exact induction isPart
        | object inside =>
            rintro ⟨name, value⟩ there
            rcases inside.exists_text there with ⟨part, ⟨_, _, _, isPart⟩, _⟩
            exact induction isPart

theorem NestsWithin.merged {levels : Nat} : ∀ {tree : Json}, tree.NestsWithin levels →
    tree.merged.NestsWithin levels := by
  induction levels with
  | zero =>
      intro tree within
      rw [NestsWithin, isContainer, kind_merged]
      exact within
  | succ levels induction =>
      intro tree within
      cases tree with
      | array elements =>
          rw [Json.merged, mergedElements_eq_map]
          exact List.forall_mem_map.mpr fun element there => induction (within element there)
      | object members =>
          rw [Json.merged, mergedMembers_eq_map]
          refine forall_mergeMembers ?_
          exact List.forall_mem_map.mpr fun member there => induction (within member there)
      | null | bool | number | string => trivial

theorem DocumentText.nestsWithin {text : List Char} {tree : Json}
    (isDocument : DocumentText text tree) : tree.NestsWithin nestingLimit := by
  cases isDocument with
  | intro _ spelled _ => exact spelled.nestsWithin

/-- What is decoded nests no deeper than texts may. -/
theorem nestsWithin_of_decode {source : List UInt8} {value : Json}
    (decoded : decode source = .ok value) : value.NestsWithin nestingLimit := by
  rcases decode_eq_ok_iff.mp decoded with ⟨text, tree, rfl, isDocument, rfl⟩
  exact isDocument.nestsWithin.merged

end JsonQuery.Json
