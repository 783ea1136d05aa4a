import JsonQuery.Proofs.Source.Containment
import JsonQuery.Proofs.Source.Descent

/-!
Members whose names are repeated. A span goes through the members of an object as they are written,
while the decoded object has each name once. The two are counted and listed alike exactly where no
name is repeated.
-/

namespace JsonQuery

namespace Json

theorem mem_names_of_merged {name : String} {members : List (String × Json)}
    (there : name ∈ (mergeMembers members).map Prod.fst) : name ∈ members.map Prod.fst := by
  induction members using List.reverseRecOn with
  | nil => cases there
  | append_singleton members member induction =>
      rw [mergeMembers_append] at there
      rw [List.map_append, List.mem_append]
      rcases mem_names_putMember there with rfl | earlier
      · exact .inr (List.mem_singleton_self _)
      · exact .inl (induction earlier)

/-- Merging leaves as many members as there were exactly where no name is repeated. -/
theorem length_mergeMembers_iff (members : List (String × Json)) :
    (mergeMembers members).length = members.length ↔ (members.map Prod.fst).Nodup := by
  constructor
  · intro sameLength
    have contained : (mergeMembers members).map Prod.fst ⊆ members.map Prod.fst :=
      fun _ => mem_names_of_merged
    have sameNames := ((nodup_mergeMembers members).subperm contained).perm_of_length_le
      (by rw [List.length_map, List.length_map, sameLength])
    exact sameNames.nodup_iff.mp (nodup_mergeMembers members)
  · intro nodup
    rw [mergeMembers_of_nodup nodup]

/-- So are the values of the members. -/
theorem values_mergeMembers_iff (members : List (String × Json)) :
    (mergeMembers members).map Prod.snd = members.map Prod.snd ↔
      (members.map Prod.fst).Nodup := by
  rw [← length_mergeMembers_iff]
  constructor
  · intro sameValues
    have sameLength := congrArg List.length sameValues
    rwa [List.length_map, List.length_map] at sameLength
  · intro sameLength
    rw [mergeMembers_of_nodup ((length_mergeMembers_iff members).mp sameLength)]

end Json

/-- The place of an object has a child for each member, and the children are the values. -/
theorem Place.children_values {place : Place} {members : List (String × Json)}
    (isObject : place.value = .object members) :
    Node.length place = members.length ∧
      (Node.children place).mapM Node.decode = .ok (members.map Prod.snd) := by
  have children : Node.children place = place.members.map Prod.snd :=
    children_of_not_array (by rw [isObject]; rintro ⟨⟩)
  have values : (Node.children place).map Place.value = members.map Prod.snd := by
    rw [children, Place.members, isObject]
    exact List.ext_getElem (by simp) fun position _ _ => by simp [child]
  constructor
  · show (Node.children place).length = members.length
    simpa using congrArg List.length values
  · rw [← values]
    exact List.mapM_pure

namespace Span

theorem mapM_decode {spans : List Span} {trees : List Json}
    (held : List.Forall₂ Holds spans trees) :
    spans.mapM Node.decode = .ok (trees.map Json.merged) := by
  induction held with
  | nil => rfl
  | cons first others induction =>
      rw [List.mapM_cons, induction]
      change Span.decode _ >>= _ = _
      rw [first.decode]
      rfl

/-- Every span that is reached from one that holds a tree holds a tree. -/
theorem Holds.reached {root span : Span} {tree : Json} (held : root.Holds tree)
    (reached : Relation.ReflTransGen Node.Leads root span) : ∃ inner, span.Holds inner := by
  induction reached with
  | refl => exact ⟨tree, held⟩
  | tail _ leads induction =>
      rcases induction with ⟨inner, innerHeld⟩
      exact innerHeld.children.1 _ (leads_children leads)

theorem Holds.children_values {span : Span} {written : List (String × Json)}
    (held : span.Holds (.object written)) :
    Node.length span = written.length ∧ (Node.children span).mapM Node.decode =
      .ok (written.map fun member => member.2.merged) := by
  have members := held.members.1
  have children : Node.children span = span.members.map Prod.snd :=
    children_of_not_array (by rw [held.kind]; rintro ⟨⟩)
  have values : List.Forall₂ Holds (span.members.map Prod.snd) (written.map Prod.snd) :=
    List.rel_map (fun _ _ named => named.2) members
  have decoded := mapM_decode values
  rw [List.map_map] at decoded
  refine ⟨?_, by rw [children, decoded]; rfl⟩
  show (Node.children span).length = written.length
  rw [children, List.length_map, members.length_eq]

end Span

/-- An object that is reached in a source goes through its members as they are written, a repeated
name as often as it is there. A place of the decoded object has each name once, so the two have as
many children exactly where no name is repeated, and the same ones exactly there. -/
theorem members_alike_iff_unrepeated {source : List UInt8} {value : Json}
    (decoded : Json.decode source = .ok value) :
    ∃ root, Span.root? source = some root ∧ ∀ span, Relation.ReflTransGen Node.Leads root span →
      Node.kind span = .object → ∃ written : List (String × Json), span.Holds (.object written) ∧
        Node.length span = written.length ∧
        (Node.children span).mapM Node.decode = .ok (written.map fun member => member.2.merged) ∧
        ∃ members, Node.decode span = .ok (.object members) ∧
          ∀ place : Place, place.value = .object members →
            Node.length place = members.length ∧
            (Node.children place).mapM Node.decode = .ok (members.map Prod.snd) ∧
            (Node.length span = Node.length place ↔ (written.map Prod.fst).Nodup) ∧
            ((Node.children span).mapM Node.decode = (Node.children place).mapM Node.decode ↔
              (written.map Prod.fst).Nodup) := by
  rcases Json.decode_eq_ok_iff.mp decoded with ⟨text, tree, rfl, isDocument, _⟩
  rcases Span.exists_root_of_document isDocument with ⟨root, isRoot, held⟩
  refine ⟨root, isRoot, fun span reached isObject => ?_⟩
  rcases held.reached reached with ⟨inner, innerHeld⟩
  have sameKind : inner.kind = .object := innerHeld.kind.symm.trans isObject
  cases inner with
  | object written =>
      rcases innerHeld.children_values with ⟨length, values⟩
      refine ⟨written, innerHeld, length, values, _, innerHeld.decode, fun place isPlace => ?_⟩
      rw [Json.mergedMembers_eq_map] at isPlace ⊢
      rcases Place.children_values isPlace with ⟨placeLength, placeValues⟩
      have sameNames : (written.map fun member => (member.1, member.2.merged)).map Prod.fst =
          written.map Prod.fst := List.map_map
      have sameValues : (written.map fun member => (member.1, member.2.merged)).map Prod.snd =
          written.map fun member => member.2.merged := List.map_map
      refine ⟨placeLength, placeValues, ?_, ?_⟩
      · rw [length, placeLength, ← sameNames, ← Json.length_mergeMembers_iff, List.length_map]
        exact eq_comm
      · rw [values, placeValues, ← sameNames, ← Json.values_mergeMembers_iff, sameValues,
          Except.ok.injEq]
        exact eq_comm
  | null | bool | number | string | array => cases sameKind

/-- The name `k` twice, once with an escape. -/
theorem members_alike_iff_unrepeated_escaped :
    let source := Utf8.encode ['{', '"', 'k', '"', ':', '1', ',', '"', '\\', 'u', '0', '0', '6',
      'b', '"', ':', '2', '}']
    let value := Json.object [("k", .number (.integer 2))]
    ∃ root, Span.root? source = some root ∧ Node.decode root = .ok value ∧ Node.length root = 2 ∧
      Node.length (Place.root value) = 1 ∧
      (Node.children root).mapM Node.decode ≠
        (Node.children (Place.root value)).mapM Node.decode := by
  intro source value
  have decoded : Json.decode source = .ok value := by cbv
  rcases members_alike_iff_unrepeated decoded with ⟨root, isRoot, each⟩
  have same : Span.root? source = some ⟨0, source, 18⟩ := by cbv
  rw [same, Option.some.injEq] at isRoot
  subst isRoot
  have isDecoded : Node.decode (⟨0, source, 18⟩ : Span) = .ok value := by cbv
  have length : Node.length (⟨0, source, 18⟩ : Span) = 2 := by cbv
  rcases each _ .refl (by cbv) with ⟨written, _, _, _, members, isMembers, places⟩
  have sameMembers := Json.object.inj (Except.ok.inj (isDecoded.symm.trans isMembers))
  subst sameMembers
  rcases places (Place.root value) rfl with ⟨placeLength, _, lengths, values⟩
  refine ⟨_, same, isDecoded, length, placeLength, fun equal => ?_⟩
  have sameLengths := lengths.mpr (values.mp equal)
  rw [length, placeLength] at sameLengths
  cases sameLengths

end JsonQuery
