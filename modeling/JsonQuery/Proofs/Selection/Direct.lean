import JsonQuery.Proofs.Selection.Simulation

/-!
Direct queries. A query of names and positions alone goes down from one node to at most one other,
a segment at a time, and selects the value of the node at the end of the way.
-/

namespace JsonQuery

/-! ## Segments of a query -/

theorem mapM_cons_eq_some {α β : Type} {change : α → Option β} {first : α} {others : List α}
    {changed : List β} : (first :: others).mapM change = some changed ↔
      ∃ head tail, change first = some head ∧ others.mapM change = some tail ∧
        changed = head :: tail := by
  simp only [List.mapM_cons, Option.bind_eq_bind, Option.bind_eq_some_iff, Option.pure_def,
    Option.some.injEq]
  constructor
  · rintro ⟨head, headSome, tail, tailSome, rfl⟩
    exact ⟨head, tail, headSome, tailSome, rfl⟩
  · rintro ⟨head, tail, headSome, tailSome, rfl⟩
    exact ⟨head, headSome, tail, tailSome, rfl⟩

theorem isSome_mapM {α β : Type} (change : α → Option β) (items : List α) :
    (items.mapM change).isSome = items.all fun item => (change item).isSome := by
  induction items with
  | nil => rfl
  | cons item items induction =>
      rw [List.all_cons, ← induction, List.mapM_cons]
      cases change item with
      | none => rfl
      | some head => cases items.mapM change <;> rfl

theorem Step.isDirect_eq_isSome (step : Step) : step.isDirect = step.segments?.isSome := by
  have predicates : step.predicates.all Predicate.isIndex =
      (step.predicates.mapM Predicate.segment?).isSome := by
    rw [isSome_mapM]
    congr
    funext predicate
    cases predicate <;> rfl
  rw [Step.isDirect, Step.segments?, predicates]
  cases step.selector <;> cases step.predicates.mapM Predicate.segment? <;> rfl

/-- A query is direct exactly if it spells a way. -/
theorem Query.isDirect_eq_isSome (query : Query) :
    query.isDirect = query.directSegments?.isSome := by
  rw [Query.isDirect, Query.directSegments?, Option.isSome_map, isSome_mapM]
  congr
  funext step
  exact step.isDirect_eq_isSome

/-! ## Walking -/

@[simp] theorem Traced.pure_bind {α β : Type} (answer : α) (next : α → Traced β) :
    (pure answer : Traced α) >>= next = next answer := rfl

variable {ν : Type} [Node ν]

/-- Where a segment leads from a node. In an array a name that spells a position names the element
there. -/
def Node.walk? (node : ν) : Segment → Option ν
  | .key name =>
    match Node.kind node with
    | .object => Node.field node name
    | .array => (Digits.readCount? name.toList).bind (Node.element node)
    | _ => none
  | .index position =>
    match Node.kind node with
    | .array => (resolveIndex? position (Node.length node)).bind (Node.element node)
    | _ => none

/-- Where segments lead from a node, one after the other. -/
def Node.walkAll? (node : ν) (segments : List Segment) : Option ν :=
  segments.foldlM Node.walk? node

def Visit.walk? (visit : Visit ν) (segment : Segment) : Option (Visit ν) :=
  (Node.walk? visit.node segment).map visit.child

theorem Visit.field?_eq_walk? (visit : Visit ν) (name : String) :
    visit.field? name = visit.walk? (.key name) := by
  rw [Visit.field?, Visit.walk?, Node.walk?]
  cases Node.kind visit.node with
  | array => cases Digits.readCount? name.toList <;> rfl
  | null | bool | number | string | object => rfl

theorem Candidate.atIndex?_node (visit : Visit ν) (position : Int) :
    (Candidate.node visit).atIndex? position = (visit.walk? (.index position)).map .node := by
  rw [Candidate.atIndex?, Visit.walk?, Node.walk?]
  cases Node.kind visit.node with
  | array =>
      dsimp only
      cases resolveIndex? position (Node.length visit.node) with
      | none => rfl
      | some index =>
          show ((Node.element visit.node index).bind fun element =>
            some (Candidate.node (visit.child element))) = _
          cases found : Node.element visit.node index <;> simp [found]
  | null | bool | number | string | object => rfl

/-- The only candidate of a direct query, if there is one. -/
def Candidate.only (found : Option (Visit ν)) : List (Candidate ν) :=
  (found.map Candidate.node).toList

theorem Candidate.filterMap_field? (found : Option (Visit ν)) (name : String) :
    ((flatten (only found)).filterMap fun visit => (visit.field? name).map .node) =
      only (found.bind fun visit => visit.walk? (.key name)) := by
  cases found with
  | none => rfl
  | some visit =>
      show ([visit].filterMap fun visit => (visit.field? name).map Candidate.node) = _
      simp only [only, List.filterMap_cons, Visit.field?_eq_walk?, Option.bind_some]
      cases visit.walk? (.key name) <;> rfl

theorem Candidate.filterMap_atIndex? (found : Option (Visit ν)) (position : Int) :
    (only found).filterMap (·.atIndex? position) =
      only (found.bind fun visit => visit.walk? (.index position)) := by
  cases found with
  | none => rfl
  | some visit =>
      simp only [only, Option.map_some, Option.toList_some, List.filterMap_cons, atIndex?_node,
        Option.bind_some]
      cases visit.walk? (.index position) <;> rfl

theorem Selector.apply_only (context : Context) (found : Option (Visit ν)) {selector : Selector}
    {segment : Segment} (spelled : selector.segment? = some segment) :
    selector.apply context (Candidate.only found) =
      pure (Candidate.only (found.bind fun visit => visit.walk? segment)) := by
  cases selector with
  | field name =>
      cases spelled
      exact congrArg pure (Candidate.filterMap_field? found name)
  | index position =>
      cases spelled
      exact congrArg pure (Candidate.filterMap_atIndex? found position)
  | slice | wildcard | recursive | parent | current => cases spelled

theorem Predicate.apply_only (context : Context) (fanOut : Bool) (found : Option (Visit ν))
    {predicate : Predicate} {segment : Segment} (spelled : predicate.segment? = some segment) :
    predicate.apply context fanOut (Candidate.only found) =
      pure (Candidate.only (found.bind fun visit => visit.walk? segment)) := by
  cases predicate with
  | index position =>
      cases spelled
      exact congrArg pure (Candidate.filterMap_atIndex? found position)
  | slice | filter => cases spelled

theorem foldlM_apply_only {context : Context} {fanOut : Bool} (predicates : List Predicate) :
    ∀ {segments : List Segment}, predicates.mapM Predicate.segment? = some segments →
      ∀ found : Option (Visit ν),
        predicates.foldlM (fun selected predicate => predicate.apply context fanOut selected)
            (Candidate.only found) =
          pure (Candidate.only (found.bind fun visit => segments.foldlM Visit.walk? visit)) := by
  induction predicates with
  | nil =>
      intro segments spelled found
      cases spelled
      cases found <;> rfl
  | cons predicate predicates induction =>
      intro segments spelled found
      rcases mapM_cons_eq_some.mp spelled with ⟨segment, others, here, further, rfl⟩
      rw [List.foldlM_cons, Predicate.apply_only context fanOut found here, Traced.pure_bind,
        induction further]
      cases found <;> rfl

theorem Step.apply_only {context : Context} {step : Step} {segments : List Segment}
    (spelled : step.segments? = some segments) (found : Option (Visit ν)) :
    step.apply context (Candidate.only found) =
      pure (Candidate.only (found.bind fun visit => segments.foldlM Visit.walk? visit)) := by
  rw [Step.segments?] at spelled
  rcases Option.bind_eq_some_iff.mp spelled with ⟨first, firstSome, spelled⟩
  rcases Option.bind_eq_some_iff.mp spelled with ⟨others, othersSome, spelled⟩
  cases spelled
  rw [Step.apply, Selector.apply_only context found firstSome, Traced.pure_bind,
    foldlM_apply_only step.predicates othersSome]
  cases found <;> rfl

theorem foldlM_step_only {context : Context} (steps : List Step) :
    ∀ {ways : List (List Segment)}, steps.mapM Step.segments? = some ways →
      ∀ found : Option (Visit ν),
        steps.foldlM (Step.apply context) (Candidate.only found) =
          pure (Candidate.only
            (found.bind fun visit => ways.flatten.foldlM Visit.walk? visit)) := by
  induction steps with
  | nil =>
      intro ways spelled found
      cases spelled
      cases found <;> rfl
  | cons step steps induction =>
      intro ways spelled found
      rcases mapM_cons_eq_some.mp spelled with ⟨way, others, here, further, rfl⟩
      rw [List.foldlM_cons, Step.apply_only here, Traced.pure_bind, induction further,
        List.flatten_cons]
      cases found with
      | none => rfl
      | some visit => simp only [Option.bind_some, List.foldlM_append, Option.bind_eq_bind]

theorem Query.candidates_direct {query : Query} {segments : List Segment}
    (spelled : query.directSegments? = some segments) (context : Context) (node : ν) :
    query.candidates context node =
      pure (Candidate.only (segments.foldlM Visit.walk? ⟨node, []⟩)) := by
  rcases Option.map_eq_some_iff.mp spelled with ⟨ways, waysSome, rfl⟩
  exact foldlM_step_only query.steps waysSome (some ⟨node, []⟩)

theorem map_node_walk? (segments : List Segment) :
    ∀ visit : Visit ν, (segments.foldlM Visit.walk? visit).map Visit.node =
      Node.walkAll? visit.node segments := by
  induction segments with
  | nil => intro visit; rfl
  | cons segment segments induction =>
      intro visit
      simp only [Node.walkAll?, List.foldlM_cons, Visit.walk?, Option.bind_eq_bind] at induction ⊢
      cases Node.walk? visit.node segment with
      | none => rfl
      | some node => exact induction (visit.child node)

/-- A direct query has no match but the node that its segments lead to. -/
theorem Query.execute_direct {query : Query} {segments : List Segment}
    (spelled : query.directSegments? = some segments) (context : Context) (node : ν) :
    query.execute context node = pure ((Node.walkAll? node segments).toList.map .node) := by
  have walked := map_node_walk? segments (⟨node, []⟩ : Visit ν)
  rw [execute, candidates_direct spelled, Traced.pure_bind, ← walked]
  cases segments.foldlM Visit.walk? (⟨node, []⟩ : Visit ν) <;> rfl

/-- A direct query selects the value of the node that its segments lead to. -/
theorem Query.select_direct {query : Query} {segments : List Segment}
    (spelled : query.directSegments? = some segments) (context : Context) (node : ν) :
    query.select context node =
      Traced.ofExcept ((Node.walkAll? node segments).toList.mapM Node.decode) := by
  rw [select, execute_direct spelled, Traced.pure_bind]
  cases Node.walkAll? node segments <;> rfl

/-! ## Similar nodes -/

namespace Similar

variable {μ : Type} [Node μ] {related : μ → ν → Prop} {left : μ} {right : ν}

theorem walk? (similar : Similar related) (same : related left right) (segment : Segment) :
    Option.Rel related (Node.walk? left segment) (Node.walk? right segment) := by
  have sameKind := similar.kind same
  cases segment with
  | key name =>
      simp only [Node.walk?, sameKind]
      cases Node.kind right with
      | object => exact similar.field name same
      | array =>
          cases Digits.readCount? name.toList with
          | none => exact .none
          | some position => exact similar.element position same
      | null | bool | number | string => exact .none
  | index position =>
      simp only [Node.walk?, sameKind]
      cases isArray : Node.kind right with
      | array =>
          rw [similar.length same (sameKind.trans isArray)]
          cases resolveIndex? position (Node.length right) with
          | none => exact .none
          | some index => exact similar.element index same
      | null | bool | number | string | object => exact .none

theorem walkAll? (similar : Similar related) (same : related left right)
    (segments : List Segment) :
    Option.Rel related (Node.walkAll? left segments) (Node.walkAll? right segments) :=
  foldlM_rel segments (fun _ _ segment same => similar.walk? same segment) same

/-- A direct query selects the same from nodes that are only similar. -/
theorem select_direct (similar : Similar related) (same : related left right) {query : Query}
    (isDirect : query.isDirect = true) (context : Context) :
    query.select context left = query.select context right := by
  rw [query.isDirect_eq_isSome] at isDirect
  rcases Option.isSome_iff_exists.mp isDirect with ⟨segments, spelled⟩
  have rel := similar.walkAll? same segments
  rw [Query.select_direct spelled, Query.select_direct spelled]
  generalize Node.walkAll? left segments = first, Node.walkAll? right segments = second at rel
  cases rel with
  | none => rfl
  | some found =>
      rcases similar.decode found with ⟨value, leftValue, rightValue⟩
      simp only [Option.toList_some, List.mapM_cons, List.mapM_nil, leftValue, rightValue]

end Similar

end JsonQuery
