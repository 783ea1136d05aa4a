import JsonQuery.Proofs.Source.Places

/-!
Going down through the children of a span. The children lie inside their parent and apart from each
other, so no two ways from the root lead to spans that start at one offset.
-/

namespace JsonQuery.Span

/-- The span at the end of a way of positions, outermost first. -/
def descend? (span : Span) (way : List Nat) : Option Span :=
  way.foldlM (fun span position => span.children[position]?) span

theorem descend?_cons (span : Span) (position : Nat) (way : List Nat) :
    span.descend? (position :: way) =
      span.children[position]?.bind fun child => child.descend? way := rfl

theorem descend?_append (span : Span) (way : List Nat) (position : Nat) :
    span.descend? (way ++ [position]) =
      (span.descend? way).bind fun found => found.children[position]? := by
  simp [descend?]

theorem Holds.size_pos {span : Span} {tree : Json} (held : span.Holds tree) : 0 < span.size := by
  rcases held with ⟨text, rest, spelled, sameText, sameSize⟩
  rw [sameSize]
  exact length_encode_pos (Json.Spells.begins _ _ _ spelled)

/-- The children of a span that holds a tree hold trees, and they lie behind its first byte. -/
theorem Holds.children {span : Span} {tree : Json} (held : span.Holds tree) :
    (∀ child ∈ span.children, ∃ inner, child.Holds inner) ∧
      Chain (span.start + 1) span.children span.stop := by
  have kind := held.kind
  have size := held.size_pos
  cases tree with
  | array trees =>
      rw [children_of_array kind]
      refine ⟨?_, held.elements.2.mono_stop (Nat.sub_le _ _)⟩
      intro child member
      rcases exists_of_mem_rel held.elements.1 member with ⟨inner, _, innerHeld⟩
      exact ⟨inner, innerHeld⟩
  | object trees =>
      rw [children_of_not_array (by rw [kind]; nofun)]
      refine ⟨?_, held.members.2.mono_stop (Nat.sub_le _ _)⟩
      intro child member
      rcases List.mem_map.mp member with ⟨written, there, rfl⟩
      rcases exists_of_mem_rel held.members.1 there with ⟨inner, _, named⟩
      exact ⟨inner.2, named.2⟩
  | null | bool | number | string =>
      rw [children_of_not_array (by rw [kind]; nofun),
        members_of_not_object (by rw [kind]; nofun)]
      exact ⟨nofun, Nat.add_le_add_left size span.start⟩

/-- Going down never leaves a span. -/
theorem Holds.inside (way : List Nat) :
    ∀ {span : Span} {tree : Json} {found : Span}, span.Holds tree →
      span.descend? way = some found →
        span.start ≤ found.start ∧ found.stop ≤ span.stop ∧ 0 < found.size := by
  induction way with
  | nil =>
      intro span tree found held reached
      rw [← Option.some.inj reached]
      exact ⟨Nat.le_refl _, Nat.le_refl _, held.size_pos⟩
  | cons position way induction =>
      intro span tree found held reached
      rw [descend?_cons] at reached
      rcases Option.bind_eq_some_iff.mp reached with ⟨child, childAt, below⟩
      have member := List.mem_of_getElem? childAt
      rcases held.children.1 child member with ⟨inner, innerHeld⟩
      have outer := held.children.2.bounds.2 child member
      have within := induction innerHeld below
      omega

/-- A way that begins with a position leads into the child there. -/
theorem Holds.exists_child {span : Span} {tree : Json} (held : span.Holds tree) {position : Nat}
    {way : List Nat} {found : Span} (reached : span.descend? (position :: way) = some found) :
    ∃ child inner, span.children[position]? = some child ∧ child.Holds inner ∧
      child.descend? way = some found ∧ span.start < child.start ∧
      child.start ≤ found.start ∧ found.start < child.stop := by
  rw [descend?_cons] at reached
  rcases Option.bind_eq_some_iff.mp reached with ⟨child, childAt, below⟩
  have member := List.mem_of_getElem? childAt
  rcases held.children.1 child member with ⟨inner, innerHeld⟩
  have outer := held.children.2.bounds.2 child member
  have within := innerHeld.inside way below
  have stops : found.stop = found.start + found.size := rfl
  exact ⟨child, inner, childAt, innerHeld, below, by omega, by omega, by omega⟩

/-- Spans at the ends of different ways start at different offsets. -/
theorem Holds.way_eq_of_start_eq (way : List Nat) :
    ∀ {other : List Nat} {span : Span} {tree : Json} {first second : Span}, span.Holds tree →
      span.descend? way = some first → span.descend? other = some second →
        first.start = second.start → way = other := by
  induction way with
  | nil =>
      intro other span tree first second held reached otherReached equal
      cases other with
      | nil => rfl
      | cons position other =>
          rw [← Option.some.inj reached] at equal
          rcases held.exists_child otherReached with ⟨child, inner, _, _, _, below, within, _⟩
          omega
  | cons position way induction =>
      intro other span tree first second held reached otherReached equal
      rcases held.exists_child reached with
        ⟨child, inner, childAt, innerHeld, childReached, below, starts, ends⟩
      cases other with
      | nil =>
          rw [← Option.some.inj otherReached] at equal
          omega
      | cons otherPosition other =>
          rcases held.exists_child otherReached with
            ⟨twin, twinInner, twinAt, twinHeld, twinReached, _, twinStarts, twinEnds⟩
          have chain := held.children.2
          rcases Nat.lt_trichotomy position otherPosition with before | equalPosition | behind
          · have apart := chain.apart before childAt twinAt
            omega
          · subst equalPosition
            rw [childAt, Option.some.injEq] at twinAt
            rw [← twinAt] at twinReached
            rw [induction innerHeld childReached twinReached equal]
          · have apart := chain.apart behind twinAt childAt
            omega

end JsonQuery.Span
