import JsonQuery.Proofs.Selection.Following
import JsonQuery.Proofs.Selection.RecursiveDescent

/-!
Parent navigation. Parent links lead to the places that contain the entries, so what a step to the
parents finds are the containers of its candidates.
-/

namespace JsonQuery

/-! ## Containers -/

/-- The place of a tree that contains a place. -/
def Place.container? (root place : Place) : Option Place :=
  root.listing.find? fun above => (Node.children above).any (Node.same place)

theorem Place.container?_root (root : Place) : root.container? root = none := by
  refine List.find?_eq_none.mpr fun above there isContainer => ?_
  rcases List.any_eq_true.mp isContainer with ⟨child, isChild, same⟩
  have isLocation : root.location = child.location := eq_of_beq same
  rcases location_child isChild with ⟨position, isBelow⟩
  have longer := (location_listing root above there).length_le
  rw [isLocation, isBelow, List.length_cons] at longer
  omega

theorem Place.container?_child {root above child : Place} (there : above ∈ root.listing)
    (isChild : child ∈ Node.children above) : root.container? child = some above := by
  have contains : (Node.children above).any (Node.same child) = true :=
    List.any_eq_true.mpr ⟨child, isChild, beq_self_eq_true child.location⟩
  cases isFound : root.container? child with
  | none => exact absurd contains (List.find?_eq_none.mp isFound above there)
  | some found =>
      unfold container? at isFound
      have isContainer := List.find?_some isFound
      rcases List.any_eq_true.mp isContainer with ⟨other, isOther, same⟩
      have isLocation : child.location = other.location := eq_of_beq same
      rcases location_child isChild with ⟨_, isBelow⟩
      rcases location_child isOther with ⟨_, isBelowFound⟩
      rw [isBelow, isBelowFound] at isLocation
      have sameLocation := (List.cons.inj isLocation).2.symm
      exact congrArg some (List.inj_on_of_nodup_map root.listing_nodup
        (List.mem_of_find?_eq_some isFound) there sameLocation)

/-- The visit above a visit in a linked arena is to its container. -/
theorem Arena.Shows.container {arena : Arena Place} {root : Place} {entry : Nat}
    {visit : Visit Place} (linked : arena.Linked root) (shows : arena.Shows entry visit) :
    visit.parent?.map Visit.node = root.container? visit.node := by
  have way := (shows.way linked).2
  cases isParent : visit.parent? with
  | none =>
      rw [isParent] at way
      rw [way, Place.container?_root]
      rfl
  | some above =>
      rw [isParent] at way
      rw [Place.container?_child (way.1.subset above.node.self_mem_listing) way.2]
      rfl

theorem Agree.exists_left {α β : Type} {related : α → β → Prop} {first : Traced α}
    {second : Traced β} (agree : Agree related first second) {right : β}
    (isOutcome : second.outcome = .ok right) : ∃ left, related left right := by
  cases agree with
  | answer same =>
      cases isOutcome
      exact ⟨_, same⟩
  | tooDeep => cases isOutcome

theorem Selector.parent_apply (context : Context) (candidates : List (Candidate Place)) :
    ∃ found : List (Visit Place),
      (Selector.apply context candidates .parent).outcome = .ok (found.map .node) ∧
        found.map Visit.node = ((Candidate.flatten candidates).filterMap fun visit =>
          visit.parent?.map Visit.node).eraseDupsBy Node.same := by
  have added (visits : List (Visit Place)) : ∀ found : List (Visit Place),
      (visits.foldl (fun found visit => visit.addTo found) found).map Visit.node =
        Place.addAll (found.map Visit.node) (visits.map Visit.node) := by
    induction visits with
    | nil => exact fun _ => rfl
    | cons visit visits induction =>
        intro found
        rw [List.foldl_cons, induction, Visit.map_node_addTo, ← Place.addAll_append]
        rfl
  refine ⟨_, rfl, ?_⟩
  rw [added, List.map_nil, Place.addAll_eq_eraseDups, List.map_filterMap]

/-- Throughout a run of any steps, and also of one that fails, every entry of its arena but the
first has a parent link, which leads to an earlier entry of the place that contains it. So a step to
the parents finds the containers of its candidates, each of them once and where it comes first; the
root has none. -/
theorem parents_are_containers (steps : List Step) (context : Context) (value : Json) :
    let root := Place.root value
    let run := Query.enter ⟨steps⟩ context root
    (∀ sofar, sofar <+: run.2 → sofar ≠ [] → Arena.Linked root sofar) ∧
    Agree (List.Forall₂ (Mark.Shows run.2)) run.1 (Query.candidates ⟨steps⟩ context root) ∧
    Ends
      (fun candidates => ∃ found : List (Visit Place),
        (Selector.apply context candidates .parent).outcome = .ok (found.map .node) ∧
        found.map Visit.node = (((Candidate.flatten candidates).map Visit.node).filterMap
          root.container?).eraseDupsBy Node.same)
      (· = .tooDeep context.maxDepth)
      (Query.candidates ⟨steps⟩ context root).outcome := by
  intro root run
  have follows := Query.follows ⟨steps⟩ context root
  have linked : Arena.Linked root run.2 := follows.linked
  have agree : Agree (List.Forall₂ (Mark.Shows run.2)) run.1
      (Query.candidates ⟨steps⟩ context root) := follows.agree
  refine ⟨fun sofar grows begun => linked.of_prefix grows begun, agree, ?_⟩
  have anything : Json.Inherited fun _ => True :=
    ⟨fun _ _ _ => trivial, fun _ _ _ => trivial, fun _ _ => trivial⟩
  have ends : Finds (fun _ => True) (· = .tooDeep context.maxDepth)
      (Query.candidates ⟨steps⟩ context root) := by
    refine Query.finds anything (fun _ _ _ => ?_) trivial _
    rfl
  cases isOutcome : (Query.candidates ⟨steps⟩ context root).outcome with
  | error error =>
      rw [Finds, isOutcome] at ends
      exact ends
  | ok candidates =>
      rcases agree.exists_left isOutcome with ⟨marks, all⟩
      rcases Selector.parent_apply context candidates with ⟨found, isFound, nodes⟩
      refine ⟨found, isFound, nodes.trans ?_⟩
      rw [List.filterMap_map]
      refine congrArg (List.eraseDupsBy Node.same) (List.filterMap_congr fun visit there => ?_)
      rcases exists_of_mem_rel (flatten_shows all).flip there with ⟨entry, _, shows⟩
      exact shows.container linked

/-- The elements of two arrays that a descent finds, as a slice leaves them: their containers are
these arrays. -/
theorem parents_are_containers_slices :
    let value : Json := .object
      [("a", .object [("b", .array [.null, .bool true])]), ("b", .array [.null])]
    let root := Place.root value
    let steps : List Step := [⟨.recursive "b", [.slice none none]⟩]
    let run := Query.enter ⟨steps⟩ ⟨.builtIn, 4⟩ root
    run.2.length = 12 ∧ Arena.Linked root run.2 ∧
    ∃ candidates, (Query.candidates ⟨steps⟩ ⟨.builtIn, 4⟩ root).outcome = .ok candidates ∧
      ((Candidate.flatten candidates).map fun visit => visit.node.location) =
        [[0, 1], [0, 0, 0], [1, 0, 0]] ∧
      ∃ found : List (Visit Place),
        (Selector.apply ⟨.builtIn, 4⟩ candidates .parent).outcome = .ok (found.map .node) ∧
        found.map Visit.node = (((Candidate.flatten candidates).map Visit.node).filterMap
          root.container?).eraseDupsBy Node.same ∧
        found.map (fun visit => visit.node.location) = [[1], [0, 0]] := by
  intro value root steps run
  have facts := parents_are_containers steps ⟨.builtIn, 4⟩ value
  have size : run.2.length = 12 := by decide +kernel
  have begun : run.2 ≠ [] := fun nothing => by
    rw [nothing] at size
    cases size
  refine ⟨size, facts.1 run.2 List.prefix_rfl begun, ?_⟩
  cases isOutcome : (Query.candidates ⟨steps⟩ ⟨.builtIn, 4⟩ root).outcome with
  | error error => cases isOutcome
  | ok candidates =>
      have ends := facts.2.2
      rw [isOutcome] at ends
      rcases ends with ⟨found, isFound, nodes⟩
      cases isOutcome
      refine ⟨_, rfl, by decide +kernel, found, isFound, nodes, ?_⟩
      have located : found.map (fun visit => visit.node.location) =
          (found.map Visit.node).map Place.location := by
        rw [List.map_map]
        rfl
      rw [located, nodes]
      decide +kernel

end JsonQuery
