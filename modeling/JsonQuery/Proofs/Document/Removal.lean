import JsonQuery.Proofs.Document.Frame

/-!
What a deletion leaves alone. One container loses what stands at one of its branches, and what is
left of it is written where it has stood, so that the rest follows from what a write leaves alone.
Only the later elements of an array that has lost one move down, by one.
-/

namespace JsonQuery

namespace Json

/-! ## One container -/

/-- What is left of a container that has lost what stood at a branch. -/
inductive Lost : Branch → Json → Json → Prop
  | element {before behind : List Json} {removed : Json} :
      Lost (.element before.length) (.array (before ++ removed :: behind))
        (.array (before ++ behind))
  | member {before behind : List (String × Json)} {name : String} {removed : Json}
      (first : name ∉ before.map Prod.fst) :
      Lost (.member name) (.object (before ++ (name, removed) :: behind))
        (.object (before ++ behind))

/-- Where a branch leads once another one has been removed: the elements behind the removed one
have moved down. -/
def Branch.without : (removed other : Branch) → Branch
  | .element index, .element position =>
    .element (if index < position then position - 1 else position)
  | _, other => other

/-- Containers of the same extent: arrays of the same length, or objects with the same names in the
same order. -/
inductive SameExtent : Json → Json → Prop
  | array {elements others : List Json} (sameLength : elements.length = others.length) :
      SameExtent (.array elements) (.array others)
  | object {members others : List (String × Json)}
      (sameNames : members.map Prod.fst = others.map Prod.fst) :
      SameExtent (.object members) (.object others)

/-- A container that is passed where something has stood keeps its extent. -/
theorem Passed.sameExtent {child old tree after : Json} {branch : Branch}
    (passed : Passed child branch (some tree) after) (leads : tree.child? branch = some old) :
    SameExtent tree after := by
  cases passed with
  | element inside => exact .array (by simp)
  | member first => exact .object (by simp)
  | gained missing =>
      have nothing := lookup_eq_none.mpr missing
      rw [child?, nothing] at leads
      cases leads

theorem lost_eraseMember {name : String} {removed : Json} {members : List (String × Json)}
    (found : members.lookup name = some removed) :
    Lost (.member name) (.object members) (.object (eraseMember name members)) := by
  obtain ⟨before, behind, rfl, others⟩ := List.lookup_eq_some_iff.mp found
  have first := lookup_eq_none.mp (List.lookup_eq_none_iff.mpr others)
  have erased : eraseMember name (before ++ (name, removed) :: behind) = before ++ behind := by
    rw [eraseMember, List.eraseP_append_right]
    · simp
    · intro member there
      simpa using fun same => first (List.mem_map.mpr ⟨member, there, same⟩)
  rw [erased]
  exact .member first

theorem lost_eraseIdx {elements : List Json} {index : Nat} (inside : index < elements.length) :
    Lost (.element index) (.array elements) (.array (elements.eraseIdx index)) := by
  have length : (elements.take index).length = index := by
    simp [Nat.le_of_lt inside]
  have joined : elements.take index ++ elements[index] :: elements.drop (index + 1) = elements := by
    simp
  have lost := @Lost.element (elements.take index) (elements.drop (index + 1)) elements[index]
  rw [length, joined, ← List.eraseIdx_eq_take_drop_succ] at lost
  exact lost

namespace Lost

variable {tree after : Json} {branch : Branch}

/-- The other branches lead where they have led before. -/
theorem child?_without (lost : Lost branch tree after) {other : Branch}
    (different : other ≠ branch) : after.child? (branch.without other) = tree.child? other := by
  cases lost with
  | @element before behind removed =>
      cases other with
      | member name => rfl
      | element position =>
          have apart : position ≠ before.length :=
            fun same => different (congrArg Branch.element same)
          simp only [Branch.without, child?]
          by_cases later : before.length < position
          · have shifted : position - before.length = position - 1 - before.length + 1 := by omega
            rw [if_pos later, List.getElem?_append_right (by omega),
              List.getElem?_append_right (by omega), shifted, List.getElem?_cons_succ]
          · rw [if_neg later, List.getElem?_append_left (by omega),
              List.getElem?_append_left (by omega)]
  | @member before behind name removed first =>
      cases other with
      | element position => rfl
      | member second =>
          have unequal : ¬name = second := fun same => different (congrArg Branch.member same.symm)
          simp [Branch.without, child?, List.lookup_append, lookup_member_cons, unequal]

/-- Where no name is repeated, none is left of the one that has been removed. -/
theorem child?_member {name : String} (lost : Lost (.member name) tree after)
    (unrepeated : tree.Unrepeated) : after.child? (.member name) = none := by
  cases lost with
  | @member before behind _ removed first =>
      have distinct := unrepeated.1
      rw [List.map_append, List.map_cons, List.nodup_middle, List.nodup_cons] at distinct
      rw [child?, lookup_eq_none, List.map_append]
      exact distinct.1

end Lost

/-! ## The whole way -/

/-- One step of a deletion that succeeds. At the end of its way it removes what its segment names;
before that it goes on in the child there and puts back what becomes of it. -/
theorem passed_delete {path : String} {segment : Segment} {segments : List Segment}
    {tree after : Json} (deleted : delete path (segment :: segments) tree = (.ok (), after)) :
    ∃ branch, branch? (some tree) segment = some branch ∧
      ((segments = [] ∧ Lost branch tree after) ∨
        ∃ child changed, tree.child? branch = some child ∧
          delete path segments child = (.ok (), changed) ∧
          Passed changed branch (some tree) after) := by
  cases tree with
  | object members =>
      cases segment with
      | key name =>
          cases found : members.lookup name with
          | none => cases segments <;> simp [delete, found] at deleted
          | some child =>
              cases segments with
              | nil =>
                  simp only [delete, found, Prod.mk.injEq, true_and] at deleted
                  subst deleted
                  exact ⟨.member name, rfl, .inl ⟨rfl, lost_eraseMember found⟩⟩
              | cons next segments =>
                  simp only [delete, found, Prod.mk.injEq] at deleted
                  obtain ⟨succeeded, rfl⟩ := deleted
                  refine ⟨.member name, rfl, .inr ⟨child, _, found, Prod.ext succeeded rfl, ?_⟩⟩
                  exact passed_putMember name _ members
      | index position => simp [delete] at deleted
  | array elements =>
      cases named : elementIndex elements.length segment path with
      | error error => simp [delete, named] at deleted
      | ok index =>
          have inside := elementIndex_lt named
          have element := List.getElem?_eq_getElem inside
          have isBranch : branch? (some (.array elements)) segment = some (.element index) := by
            rw [branch?_array elements segment path, named]
            rfl
          cases segments with
          | nil =>
              simp only [delete, named, element, Prod.mk.injEq, true_and] at deleted
              subst deleted
              exact ⟨.element index, isBranch, .inl ⟨rfl, lost_eraseIdx inside⟩⟩
          | cons next segments =>
              simp only [delete, named, element, Prod.mk.injEq] at deleted
              obtain ⟨succeeded, rfl⟩ := deleted
              refine ⟨.element index, isBranch, .inr ⟨_, _, element, Prod.ext succeeded rfl, ?_⟩⟩
              exact .element inside
  | null | bool | number | string => cases segment <;> simp [delete] at deleted

/-- A deletion that succeeds writes what is left of a container where the container stands. -/
theorem written_delete (path : String) (segments : List Segment) : ∀ {tree after : Json},
    delete path segments tree = (.ok (), after) →
      ∃ upper branch container remainder,
        locate? (some tree) segments = some (upper ++ [branch]) ∧
          tree.at? upper = some container ∧ Lost branch container remainder ∧
          Written remainder upper (some tree) after := by
  induction segments with
  | nil =>
      intro tree after deleted
      cases deleted
  | cons segment segments induction =>
      intro tree after deleted
      obtain ⟨branch, named, ⟨rfl, lost⟩ | ⟨child, changed, leads, further, passed⟩⟩ :=
        passed_delete deleted
      · exact ⟨[], branch, tree, after, by rw [locate?_cons named]; rfl, rfl, lost, .target _⟩
      · obtain ⟨upper, last, container, remainder, located, there, lost, written⟩ :=
          induction further
        have below : (some tree).bind (child? · branch) = some child := leads
        refine ⟨branch :: upper, last, container, remainder, ?_, ?_, lost, .pass passed ?_⟩
        · rw [locate?_cons named, below, located]
          rfl
        · rw [at?_cons, leads]
          exact there
        · rw [below]
          exact written

/-- A write over something that is there keeps the extent of all containers above it. -/
theorem Written.sameExtent {value old tree after : Json} {location : List Branch}
    (written : Written value location (some tree) after) (there : tree.at? location = some old)
    {above lower : List Branch} {next : Branch} (same : location = above ++ next :: lower) :
    ∃ container changed, tree.at? above = some container ∧ after.at? above = some changed ∧
      SameExtent container changed := by
  obtain ⟨changed, child, isChanged, passed⟩ := written.passed same
  rw [same, at?_append, Option.bind_eq_some_iff] at there
  obtain ⟨container, isContainer, below⟩ := there
  rw [at?_cons, Option.bind_eq_some_iff] at below
  obtain ⟨old, leads, _⟩ := below
  rw [Option.bind_some, isContainer] at passed
  exact ⟨container, changed, isContainer, isChanged, passed.sameExtent leads⟩

end Json

/-- What a deletion that succeeds does to a tree. Its segments name a location. The container there
loses exactly what stood at the last branch: an object one member, and no other member of that name
is left if no name is repeated; an array one element. The containers above keep their extent. All
else stays as it is, but for what stands in later elements of that array, which move down by one. -/
theorem delete_frame {path : String} {segments : List Segment} {tree after : Json}
    (succeeded : Json.delete path segments tree = (.ok (), after)) :
    ∃ upper branch, Json.locate? (some tree) segments = some (upper ++ [branch]) ∧
      (∃ container remainder, tree.at? upper = some container ∧ after.at? upper = some remainder ∧
        Json.Lost branch container remainder) ∧
      (∀ name, branch = .member name → tree.Unrepeated → after.at? (upper ++ [branch]) = none) ∧
      (∀ above next lower, upper = above ++ next :: lower →
        ∃ container changed, tree.at? above = some container ∧ after.at? above = some changed ∧
          Json.SameExtent container changed) ∧
      (∀ other, ¬upper <+: other → ¬other <+: upper → after.at? other = tree.at? other) ∧
      ∀ other below, other ≠ branch →
        after.at? (upper ++ branch.without other :: below) =
          tree.at? (upper ++ other :: below) := by
  obtain ⟨upper, branch, container, remainder, located, before, lost, written⟩ :=
    Json.written_delete path segments succeeded
  have behind := written.at?_target
  refine ⟨upper, branch, located, ⟨container, remainder, before, behind, lost⟩, ?_, ?_, ?_, ?_⟩
  · rintro name rfl unrepeated
    have missing := lost.child?_member (unrepeated.at? upper before)
    rw [Json.at?_append, behind, Option.bind_some, Json.at?_cons, missing]
    rfl
  · intro above next lower same
    exact written.sameExtent before same
  · intro other notAbove notBelow
    exact written.at?_of_apart notAbove notBelow
  · intro other below different
    rw [Json.at?_append, Json.at?_append, before, behind, Option.bind_some, Option.bind_some,
      Json.at?_cons, Json.at?_cons, lost.child?_without different]

/-- The way counts from the end of an array to the last but one of its elements. -/
theorem delete_frame_element :
    let tree := Json.object
      [("a", .array [.null, .bool true, .object [("k", .null)]]), ("b", .array [.null])]
    let segments := [Segment.key "a", .index (-2)]
    let after := Json.object
      [("a", .array [.null, .object [("k", .null)]]), ("b", .array [.null])]
    Json.delete "/a[-2]" segments tree = (.ok (), after) ∧
      Json.locate? (some tree) segments = some [.member "a", .element 1] ∧
      (∃ changed, after.at? [] = some changed ∧ Json.SameExtent tree changed) ∧
      after.at? [.member "b", .element 0] = tree.at? [.member "b", .element 0] ∧
      after.at? [.member "a", .element 1, .member "k"] =
        tree.at? [.member "a", .element 2, .member "k"] := by
  intro tree segments after
  have succeeded : Json.delete "/a[-2]" segments tree = (.ok (), after) := by cbv
  have located : Json.locate? (some tree) segments =
      some [.member "a", .element 1] := by cbv
  obtain ⟨upper, branch, isLocation, _, _, extents, apart, beside⟩ := delete_frame succeeded
  have same : upper ++ [branch] = [.member "a"] ++ [.element 1] :=
    Option.some.inj (isLocation.symm.trans located)
  obtain ⟨rfl, last⟩ := List.append_inj' same rfl
  cases last
  refine ⟨succeeded, located, ?_, apart _ (by simp) (by simp), ?_⟩
  · obtain ⟨container, changed, isTree, isAfter, extent⟩ := extents [] (.member "a") [] rfl
    cases isTree
    exact ⟨changed, isAfter, extent⟩
  · exact beside (.element 2) [.member "k"] (by simp)

end JsonQuery
