import JsonQuery.Proofs.Selection.Inheritance
import JsonQuery.Proofs.Selection.Pointwise
import Mathlib

/-!
Recursive descent in a tree. A step that looks for a name at any depth finds the members of that
name below its candidates, parents before children and every place once. It fails exactly if there
is anything deeper below a candidate than the search may go.
-/

namespace JsonQuery

/-! ## What stands below a place -/

namespace Place

def descendants : (levels : Nat) → Place → List Place
  | 0, place => [place]
  | levels + 1, place => (Node.children place).flatMap (descendants levels)

def named (name : String) (place : Place) : List Place :=
  (place.members.lookup name).toList ++
    (Node.children place).attach.flatMap fun child => child.1.named name
termination_by sizeOf place.value
decreasing_by exact sizeOf_child child.2

theorem named_eq (name : String) (place : Place) :
    place.named name =
      (place.members.lookup name).toList ++ (Node.children place).flatMap (named name) := by
  rw [named, List.flatMap_subtype (g := named name) fun _ _ => rfl, List.unattach_attach]

theorem descendants_eq_nil {levels more : Nat} (deeper : levels ≤ more) : ∀ {place : Place},
    place.descendants levels = [] → place.descendants more = [] := by
  induction levels generalizing more with
  | zero => nofun
  | succ levels induction =>
      intro place nothing
      cases more with
      | zero => omega
      | succ more =>
          rw [descendants, List.flatMap_eq_nil_iff] at nothing ⊢
          exact fun child there => induction (Nat.le_of_succ_le_succ deeper) (nothing child there)

theorem deeper_iff {depth : Nat} {place : Place} :
    (∃ levels, depth < levels ∧ ∃ below, below ∈ place.descendants levels) ↔
      place.descendants (depth + 1) ≠ [] := by
  constructor
  · rintro ⟨levels, deeper, below, isBelow⟩ nothing
    rw [descendants_eq_nil deeper nothing] at isBelow
    cases isBelow
  · intro isDeep
    exact ⟨_, Nat.lt_succ_self _, List.exists_mem_of_ne_nil _ isDeep⟩

end Place

/-! ## Collecting places -/

def Place.addAll (listed places : List Place) : List Place :=
  places.foldl (fun listed place =>
    if listed.any fun other => Node.same other place then listed else listed ++ [place]) listed

theorem Place.addAll_append (listed first second : List Place) :
    addAll listed (first ++ second) = addAll (addAll listed first) second :=
  List.foldl_append

/-- Beginning with an empty list, every place is kept where it occurs first. -/
theorem Place.addAll_eq_eraseDups (places : List Place) :
    addAll [] places = places.eraseDupsBy Node.same := by
  have general : ∀ (places listed : List Place),
      addAll listed places = List.eraseDupsBy.loop Node.same places listed.reverse := by
    intro places
    induction places with
    | nil => exact fun listed => (List.reverse_reverse listed).symm
    | cons place places induction =>
        intro listed
        have symmetric : (listed.any fun other => Node.same other place) =
            listed.reverse.any (Node.same place) := by
          rw [List.any_reverse]
          exact congrArg listed.any (funext fun other => Bool.beq_comm)
        rw [addAll, List.foldl_cons, ← addAll, List.eraseDupsBy.loop, symmetric, induction]
        cases listed.reverse.any (Node.same place) with
        | true => rfl
        | false => rw [if_neg Bool.false_ne_true, List.reverse_append]; rfl
  exact general places []

theorem Visit.map_node_addTo (visit : Visit Place) (found : List (Visit Place)) :
    (visit.addTo found).map Visit.node = Place.addAll (found.map Visit.node) [visit.node] := by
  rw [addTo, isAmong, Place.addAll]
  simp only [List.foldl_cons, List.foldl_nil, List.any_map, Function.comp_def]
  split
  · rfl
  · rw [List.map_append]
    rfl

theorem foldlM_adds {ε α : Type} {step : List (Visit Place) → α → Except ε (List (Visit Place))}
    {places : α → List Place} {items : List α}
    (each : ∀ item ∈ items, ∀ found, ∃ more, step found item = .ok more ∧
      more.map Visit.node = Place.addAll (found.map Visit.node) (places item)) :
    ∀ found, ∃ more, items.foldlM step found = .ok more ∧
      more.map Visit.node = Place.addAll (found.map Visit.node) (items.flatMap places) := by
  induction items with
  | nil => exact fun found => ⟨found, rfl, rfl⟩
  | cons item items induction =>
      intro found
      rw [List.forall_mem_cons] at each
      rcases each.1 found with ⟨next, isNext, added⟩
      rcases induction each.2 next with ⟨more, isMore, addedAll⟩
      refine ⟨more, by rw [List.foldlM_cons, isNext, ok_bind, isMore], ?_⟩
      rw [addedAll, added, List.flatMap_cons, Place.addAll_append]

/-- A loop fails as soon as it comes to an item that fails, if it gets through the others. -/
theorem foldlM_refuses {ε α β : Type} {step : β → α → Except ε β} {refused : ε}
    {fails : α → Prop} {items : List α}
    (failing : ∀ item ∈ items, fails item → ∀ done, step done item = .error refused)
    (others : ∀ item ∈ items, ¬fails item → ∀ done, ∃ next, step done item = .ok next)
    (some : ∃ item ∈ items, fails item) : ∀ done, items.foldlM step done = .error refused := by
  induction items with
  | nil => exact absurd some (by simp)
  | cons item items induction =>
      intro done
      rw [List.forall_mem_cons] at failing others
      rw [List.foldlM_cons]
      by_cases here : fails item
      · rw [failing.1 here]
        rfl
      · rcases others.1 here done with ⟨next, isNext⟩
        rw [isNext, ok_bind]
        refine induction failing.2 others.2 ?_ next
        simpa [here] using some

/-! ## Descending -/

namespace Visit

variable (context : Context) (name : String)

theorem descend_succ (levels : Nat) (visit : Visit Place) (found : List (Visit Place)) :
    (visit.descend context name (levels + 1) found).outcome =
      visit.children.foldlM (fun found child => (child.descend context name levels found).outcome)
        (match visit.node.members.lookup name with
          | some member => (visit.child member).addTo found
          | none => found) := by
  rw [descend, Traced.outcome_foldlM]
  congr 1
  by_cases isObject : visit.node.value.kind = .object
  · have kind : Node.kind visit.node = .object := isObject
    have field : Node.field visit.node name = visit.node.members.lookup name := rfl
    simp only [kind, field]
    cases visit.node.members.lookup name <;> rfl
  · rw [Place.members_of_not_object isObject]
    cases kind : Node.kind visit.node with
    | object => exact absurd kind isObject
    | null | bool | number | string | array => rfl

theorem descend_adds (levels : Nat) : ∀ {visit : Visit Place},
    visit.node.descendants levels = [] → ∀ found, ∃ more,
      (visit.descend context name levels found).outcome = .ok more ∧
        more.map node = Place.addAll (found.map node) (visit.node.named name) := by
  induction levels with
  | zero => nofun
  | succ levels induction =>
      intro visit shallow found
      rw [Place.descendants, List.flatMap_eq_nil_iff] at shallow
      have each : ∀ child ∈ visit.children, ∀ found, ∃ more,
          (child.descend context name levels found).outcome = .ok more ∧
            more.map node = Place.addAll (found.map node) (child.node.named name) :=
        List.forall_mem_map.mpr fun node there => induction (shallow node there)
      have children := foldlM_adds each
      rw [descend_succ]
      cases isMember : visit.node.members.lookup name with
      | none =>
          rcases children found with ⟨more, isMore, added⟩
          refine ⟨more, isMore, ?_⟩
          rw [added, Place.named_eq, isMember, Visit.children, List.flatMap_map]
          rfl
      | some member =>
          rcases children ((visit.child member).addTo found) with ⟨more, isMore, added⟩
          refine ⟨more, isMore, ?_⟩
          rw [added, map_node_addTo, ← Place.addAll_append, Place.named_eq, isMember,
            Visit.children, List.flatMap_map]
          rfl

theorem descend_refuses (levels : Nat) : ∀ {visit : Visit Place},
    visit.node.descendants levels ≠ [] → ∀ found,
      (visit.descend context name levels found).outcome = .error (.tooDeep context.maxDepth) := by
  induction levels with
  | zero => exact fun _ _ => rfl
  | succ levels induction =>
      intro visit deep found
      rw [Place.descendants, ne_eq, List.flatMap_eq_nil_iff] at deep
      rw [descend_succ]
      refine foldlM_refuses (fun child _ isDeep => induction isDeep)
        (fun child _ isShallow done => ?_) ?_ _
      · rcases descend_adds context name levels (not_not.mp isShallow) done with ⟨more, isMore, _⟩
        exact ⟨more, isMore⟩
      · push Not at deep
        rcases deep with ⟨child, there, isDeep⟩
        exact ⟨visit.child child, List.mem_map_of_mem there, isDeep⟩

end Visit

/-! ## Steps -/

section Steps

variable (context : Context) (name : String) {candidates : List (Candidate Place)}

theorem Selector.recursive_adds (shallow : ∀ visit ∈ Candidate.flatten candidates,
      visit.node.descendants (context.maxDepth + 1) = []) :
    ∃ found : List (Visit Place),
      (Selector.apply context candidates (.recursive name)).outcome = .ok (found.map .node) ∧
      found.map Visit.node = (((Candidate.flatten candidates).map Visit.node).flatMap
        (Place.named name)).eraseDupsBy Node.same := by
  have each : ∀ visit ∈ Candidate.flatten candidates, ∀ found, ∃ more,
      (visit.descend context name (context.maxDepth + 1) found).outcome = .ok more ∧
        more.map Visit.node = Place.addAll (found.map Visit.node) (visit.node.named name) :=
    fun visit there => visit.descend_adds context name _ (shallow visit there)
  rcases foldlM_adds each [] with ⟨found, isFound, added⟩
  refine ⟨found, ?_, ?_⟩
  · rw [Selector.apply, Traced.outcome_bind, Traced.outcome_foldlM, isFound]
    rfl
  · rw [added, List.flatMap_map]
    exact Place.addAll_eq_eraseDups _

theorem Selector.recursive_refuses (deep : ∃ visit ∈ Candidate.flatten candidates,
      visit.node.descendants (context.maxDepth + 1) ≠ []) :
    (Selector.apply context candidates (.recursive name)).outcome =
      .error (.tooDeep context.maxDepth) := by
  rw [Selector.apply, Traced.outcome_bind, Traced.outcome_foldlM]
  rw [foldlM_refuses (fun visit _ isDeep => visit.descend_refuses context name _ isDeep)
    (fun visit _ isShallow done => ?_) deep]
  · rfl
  · rcases visit.descend_adds context name _ (not_not.mp isShallow) done with ⟨more, isMore, _⟩
    exact ⟨more, isMore⟩

theorem Step.outcome_of_refused {step : Step} {refused : QueryError}
    (isRefused : (step.selector.apply context candidates).outcome = .error refused) :
    (step.apply context candidates).outcome = .error refused := by
  rw [Step.apply, Traced.outcome_bind, isRefused]
  rfl

theorem Step.answers {step : Step}
    (answers : (step.selector.apply context candidates).Answers) :
    (step.apply context candidates).Answers := by
  have predicates : Pointwise fun selected : List (Candidate Place) =>
      step.predicates.foldlM (fun selected predicate =>
        predicate.apply context step.selector.isFanOut selected) selected :=
    .foldlM step.predicates fun predicate _ => predicate.pointwise context _
  rcases predicates with ⟨image, each, _⟩
  exact answers.bind fun selected => ⟨_, each selected⟩

end Steps

/-- A step that looks for a name at any depth fails exactly if there is something below a candidate
that is deeper than the search may go. Otherwise it finds the members of the name below its
candidates, in the order of a search that looks at parents before children, and a place that has
been found is not listed again. -/
theorem recursive_exact (context : Context) (name : String) (candidates : List (Candidate Place)) :
    let starts := (Candidate.flatten candidates).map Visit.node
    let tooDeep := ∃ start ∈ starts, ∃ levels, context.maxDepth < levels ∧
      ∃ below, below ∈ start.descendants levels
    (∀ predicates, (Step.apply context candidates ⟨.recursive name, predicates⟩).outcome =
      .error (.tooDeep context.maxDepth) ↔ tooDeep) ∧
    (¬tooDeep → ∃ found : List (Visit Place),
      (Selector.apply context candidates (.recursive name)).outcome = .ok (found.map .node) ∧
      found.map Visit.node = (starts.flatMap (Place.named name)).eraseDupsBy Node.same) := by
  intro starts tooDeep
  have deep_iff : tooDeep ↔ ∃ visit ∈ Candidate.flatten candidates,
      visit.node.descendants (context.maxDepth + 1) ≠ [] := by
    simp only [tooDeep, starts, List.mem_map, exists_exists_and_eq_and, Place.deeper_iff]
  by_cases deep : tooDeep
  · have refused := Selector.recursive_refuses context name (deep_iff.mp deep)
    refine ⟨fun predicates => ⟨fun _ => deep, fun _ => ?_⟩, absurd deep⟩
    exact Step.outcome_of_refused context refused
  · have shallow : ∀ visit ∈ Candidate.flatten candidates,
        visit.node.descendants (context.maxDepth + 1) = [] := by
      intro visit there
      by_contra isDeep
      exact deep (deep_iff.mpr ⟨visit, there, isDeep⟩)
    have found := Selector.recursive_adds context name shallow
    refine ⟨fun predicates => ⟨fun refused => ?_, fun isDeep => absurd isDeep deep⟩, fun _ => found⟩
    rcases found with ⟨visits, isFound, _⟩
    have answers : (Step.apply context candidates ⟨.recursive name, predicates⟩).Answers :=
      Step.answers context ⟨_, isFound⟩
    rcases answers with ⟨answer, isAnswer⟩
    rw [isAnswer] at refused
    cases refused

theorem recursive_exact_nested :
    let inner := Json.object [("a", .number (.integer 1)), ("b", .array [.object [("a", .null)]])]
    let root := Place.root (.object [("a", inner)])
    let part : Visit Place := ⟨root.child 0 inner, [root]⟩
    let candidates : List (Candidate Place) := [.node ⟨root, []⟩, .group [part, part]]
    ∃ found : List (Visit Place),
      (Selector.apply ⟨.builtIn, 4⟩ candidates (.recursive "a")).outcome =
        .ok (found.map .node) ∧
      found.map Visit.node = [⟨inner, [0]⟩, ⟨.number (.integer 1), [0, 0]⟩,
        ⟨.null, [0, 0, 1, 0]⟩] := by
  intro inner root part candidates
  have shallow : ¬∃ start ∈ (Candidate.flatten candidates).map Visit.node, ∃ levels, 4 < levels ∧
      ∃ below, below ∈ start.descendants levels := by
    rintro ⟨start, there, deeper⟩
    refine Place.deeper_iff.mp deeper ?_
    change start ∈ [root, root.child 0 inner, root.child 0 inner] at there
    rcases List.mem_cons.mp there with rfl | there
    · rfl
    · rw [List.eq_of_mem_replicate (n := 2) there]
      rfl
  rcases (recursive_exact ⟨.builtIn, 4⟩ "a" candidates).2 shallow with ⟨found, isFound, nodes⟩
  refine ⟨found, isFound, nodes.trans ?_⟩
  show ([root, root.child 0 inner, root.child 0 inner].flatMap (Place.named "a")).eraseDupsBy _ = _
  have isNamed : (root.child 0 inner).named "a" =
      [⟨.number (.integer 1), [0, 0]⟩, ⟨.null, [0, 0, 1, 0]⟩] := by
    simp [Place.named_eq, root, inner, Place.root, Place.child, Place.members, Node.children,
      Place.children, Place.elements]
  have isNamedRoot : root.named "a" = root.child 0 inner :: (root.child 0 inner).named "a" := by
    rw [Place.named_eq]
    exact congrArg (root.child 0 inner :: ·) (List.flatMap_singleton _ _)
  simp only [List.flatMap_cons, List.flatMap_nil, isNamedRoot, isNamed]
  rfl

end JsonQuery
