import JsonQuery.Proofs.Relation
import JsonQuery.Selection.Execute

/-!
Queries cannot tell apart nodes that answer alike. A relation between two types of nodes that is
kept by every question a filter asks is kept by filters; if it is also kept by children and by the
test for the same node, every query finds related nodes and selects the same values.
-/

namespace JsonQuery

variable {μ ν : Type} {related : μ → ν → Prop}

/-! ## Related candidates -/

/-- Visits to related nodes by way of related nodes. -/
def Visit.Rel (related : μ → ν → Prop) (left : Visit μ) (right : Visit ν) : Prop :=
  related left.node right.node ∧ List.Forall₂ related left.ancestors right.ancestors

/-- Visits to related nodes, or groups of them. -/
inductive Candidate.Rel (related : μ → ν → Prop) : Candidate μ → Candidate ν → Prop
  | node {left : Visit μ} {right : Visit ν} (same : Visit.Rel related left right) :
      Candidate.Rel related (.node left) (.node right)
  | group {lefts : List (Visit μ)} {rights : List (Visit ν)}
      (all : List.Forall₂ (Visit.Rel related) lefts rights) :
      Candidate.Rel related (.group lefts) (.group rights)

theorem Visit.Rel.child {visit : Visit μ} {twin : Visit ν} (same : Visit.Rel related visit twin)
    {node : μ} {other : ν} (sameNode : related node other) :
    Visit.Rel related (visit.child node) (twin.child other) :=
  ⟨sameNode, .cons same.1 same.2⟩

theorem Visit.Rel.parent? {visit : Visit μ} {twin : Visit ν}
    (same : Visit.Rel related visit twin) :
    Option.Rel (Visit.Rel related) visit.parent? twin.parent? := by
  rcases visit with ⟨node, ancestors⟩
  rcases twin with ⟨other, others⟩
  cases same.2 with
  | nil => exact .none
  | cons above further => exact .some ⟨above, further⟩

theorem sliceOf_map {α β : Type} (start stop : Option Int) (change : α → β) (items : List α) :
    sliceOf start stop (items.map change) = (sliceOf start stop items).map change := by
  simp only [sliceOf, List.length_map, List.map_take, List.map_drop]

theorem sliceOf_rel {α β : Type} {related : α → β → Prop} (start stop : Option Int)
    {lefts : List α} {rights : List β} (all : List.Forall₂ related lefts rights) :
    List.Forall₂ related (sliceOf start stop lefts) (sliceOf start stop rights) := by
  rw [sliceOf, sliceOf, all.length_eq]
  exact List.forall₂_take _ (List.forall₂_drop _ all)

theorem nodes_rel {visits : List (Visit μ)} {twins : List (Visit ν)}
    (all : List.Forall₂ (Visit.Rel related) visits twins) :
    List.Forall₂ (Candidate.Rel related) (visits.map .node) (twins.map .node) :=
  List.rel_map (fun _ _ same => .node same) all

theorem flatten_rel {candidates : List (Candidate μ)} {others : List (Candidate ν)}
    (all : List.Forall₂ (Candidate.Rel related) candidates others) :
    List.Forall₂ (Visit.Rel related) (Candidate.flatten candidates) (Candidate.flatten others) := by
  apply List.rel_flatMap all
  intro candidate other rel
  cases rel with
  | node same => exact .cons same .nil
  | group all => exact all

theorem filter_agree {alike : Visit μ → Visit ν → Prop} {test : μ → Traced Bool}
    {check : ν → Traced Bool}
    (agree : ∀ visit twin, alike visit twin → Agree Eq (test visit.node) (check twin.node))
    {visits : List (Visit μ)} {twins : List (Visit ν)} (all : List.Forall₂ alike visits twins) :
    Agree (List.Forall₂ alike) (Traced.filter test visits) (Traced.filter check twins) := by
  induction all with
  | nil => exact .pure .nil
  | cons first others induction =>
      simp only [Traced.filter]
      apply (agree _ _ first).bind
      intro passes _ equal
      subst equal
      apply induction.bind
      intro kept keptTwins sameKept
      apply Agree.pure
      cases passes with
      | true => exact .cons first sameKept
      | false => exact sameKept

variable [Node μ] [Node ν]

/-! ## Alike nodes -/

/-- Related nodes have the same type and value, and following a name or a position leads to related
nodes again. -/
structure Similar (related : μ → ν → Prop) : Prop where
  kind : ∀ {left right}, related left right → Node.kind left = Node.kind right
  field : ∀ {left right} name, related left right →
    Option.Rel related (Node.field left name) (Node.field right name)
  element : ∀ {left right} position, related left right →
    Option.Rel related (Node.element left position) (Node.element right position)
  length : ∀ {left right}, related left right → Node.kind left = .array →
    Node.length left = Node.length right
  element_none : ∀ {left right} position, related left right → Node.kind left ≠ .array →
    Node.element left position = none
  decode : ∀ {left right}, related left right →
    ∃ value, Node.decode left = .ok value ∧ Node.decode right = .ok value

/-- Besides, related nodes have related children, and are the same if their partners are. -/
structure Alike (related : μ → ν → Prop) : Prop extends Similar related where
  children : ∀ {left right}, related left right →
    List.Forall₂ related (Node.children left) (Node.children right)
  same : ∀ {left right other twin}, related left right → related other twin →
    Node.same left other = Node.same right twin

variable {left : μ} {right : ν}

/-! ## Filters -/

namespace Similar

theorem follow? (similar : Similar related) (same : related left right) (segment : Segment) :
    Option.Rel related (Node.follow? left segment) (Node.follow? right segment) := by
  cases segment with
  | key name => exact similar.field name same
  | index position =>
      simp only [Node.follow?]
      by_cases isArray : Node.kind left = .array
      · rw [similar.length same isArray]
        split
        · exact .none
        · exact similar.element _ same
      · have nothing (position : Nat) :
            Node.element left position = none ∧ Node.element right position = none := by
          have leftNone := similar.element_none position same isArray
          have rel := similar.element position same
          rw [leftNone] at rel
          generalize Node.element right position = found at rel
          cases rel
          exact ⟨leftNone, rfl⟩
        simp only [nothing, ite_self]
        exact .none

theorem followAll? (similar : Similar related) (same : related left right)
    (segments : List Segment) :
    Option.Rel related (Node.followAll? left segments) (Node.followAll? right segments) :=
  foldlM_rel segments (fun _ _ segment same => similar.follow? same segment) same

theorem resolveReference (similar : Similar related) (same : related left right)
    (segments : List Segment) :
    Agree Eq (Expression.resolveReference left segments)
      (Expression.resolveReference right segments) := by
  have rel := similar.followAll? same segments
  simp only [Expression.resolveReference]
  generalize Node.followAll? left segments = first, Node.followAll? right segments = second at rel
  cases rel with
  | none => exact .pure rfl
  | some same =>
      rcases similar.decode same with ⟨value, leftValue, rightValue⟩
      simp only [leftValue, rightValue]
      exact .answer rfl

theorem call (context : Context) (name : String) {arguments others : Unit → Traced (List Operand)}
    (agree : Agree Eq (arguments ()) (others ())) :
    Agree Eq (context.call name arguments) (context.call name others) := by
  rw [Context.call, Context.call]
  cases context.functions.find? name with
  | none => exact .answer rfl
  | some function =>
      exact agree.bind fun _ _ same => .pure (congrArg function same)

mutual

theorem evaluate (similar : Similar related) (same : related left right) (context : Context) :
    ∀ condition : Expression,
      Agree Eq (condition.evaluate context left) (condition.evaluate context right)
  | .literal value => .pure rfl
  | .reference segments => .pure (isSome_eq_of_rel (similar.followAll? same segments))
  | .call name arguments =>
      (call context name (resolveAll similar same context arguments)).bind
        fun _ _ same => .pure (congrArg Operand.truth same)
  | .binary .and first second =>
      (evaluate similar same context first).bind fun answer _ equal => by
        subst equal
        cases answer with
        | true => exact evaluate similar same context second
        | false => exact .pure rfl
  | .binary .or first second =>
      (evaluate similar same context first).bind fun answer _ equal => by
        subst equal
        cases answer with
        | true => exact .pure rfl
        | false => exact evaluate similar same context second
  | .binary .equal first second | .binary .notEqual first second | .binary .less first second
  | .binary .lessOrEqual first second | .binary .greater first second
  | .binary .greaterOrEqual first second =>
      (resolve similar same context first).bind fun _ _ sameFirst =>
        (resolve similar same context second).bind fun _ _ sameSecond =>
          .pure (congrArg₂ _ sameFirst sameSecond)
  | .not operand =>
      (evaluate similar same context operand).bind fun _ _ same => .pure (congrArg Bool.not same)

theorem resolve (similar : Similar related) (same : related left right) (context : Context) :
    ∀ expression : Expression,
      Agree Eq (expression.resolve context left) (expression.resolve context right)
  | .literal value => .pure rfl
  | .reference segments => similar.resolveReference same segments
  | .call name arguments => call context name (resolveAll similar same context arguments)
  | .binary .and first second =>
      (evaluate similar same context first).bind fun answer _ equal => by
        subst equal
        cases answer with
        | true =>
            exact (evaluate similar same context second).bind fun _ _ same =>
              .pure (congrArg Operand.ofBool same)
        | false => exact .pure rfl
  | .binary .or first second =>
      (evaluate similar same context first).bind fun answer _ equal => by
        subst equal
        cases answer with
        | true => exact .pure rfl
        | false =>
            exact (evaluate similar same context second).bind fun _ _ same =>
              .pure (congrArg Operand.ofBool same)
  | .binary .equal first second | .binary .notEqual first second | .binary .less first second
  | .binary .lessOrEqual first second | .binary .greater first second
  | .binary .greaterOrEqual first second =>
      (resolve similar same context first).bind fun _ _ sameFirst =>
        (resolve similar same context second).bind fun _ _ sameSecond =>
          .pure (congrArg₂ (fun left right => Operand.ofBool (Operator.compare _ left right))
            sameFirst sameSecond)
  | .not operand =>
      (evaluate similar same context operand).bind fun _ _ same =>
        .pure (congrArg (fun answer => Operand.ofBool !answer) same)

theorem resolveAll (similar : Similar related) (same : related left right) (context : Context) :
    ∀ expressions : List Expression,
      Agree Eq (Expression.resolveAll context left expressions)
        (Expression.resolveAll context right expressions)
  | [] => .pure rfl
  | expression :: expressions =>
      (resolve similar same context expression).bind fun _ _ sameOperand =>
        (resolveAll similar same context expressions).bind fun _ _ sameOperands =>
          .pure (congrArg₂ List.cons sameOperand sameOperands)

end

end Similar

/-! ## Selectors -/

namespace Alike

variable {visit : Visit μ} {twin : Visit ν} {visits : List (Visit μ)} {twins : List (Visit ν)}

theorem visitChildren (alike : Alike related) (same : Visit.Rel related visit twin) :
    List.Forall₂ (Visit.Rel related) visit.children twin.children :=
  List.rel_map (fun _ _ sameNode => same.child sameNode) (alike.children same.1)

theorem visitField? (alike : Alike related) (same : Visit.Rel related visit twin)
    (name : String) :
    Option.Rel (Visit.Rel related) (visit.field? name) (twin.field? name) := by
  rw [Visit.field?, Visit.field?, alike.kind same.1]
  cases Node.kind twin.node with
  | object =>
      exact optionMap_rel (fun _ _ sameNode => same.child sameNode) (alike.field name same.1)
  | array =>
      cases Digits.readCount? name.toList with
      | none => exact .none
      | some position =>
          exact optionMap_rel (fun _ _ sameNode => same.child sameNode)
            (alike.element position same.1)
  | null | bool | number | string => exact .none

theorem isAmong_eq (alike : Alike related) (same : Visit.Rel related visit twin)
    (all : List.Forall₂ (Visit.Rel related) visits twins) :
    visit.isAmong visits = twin.isAmong twins := by
  induction all with
  | nil => rfl
  | cons first others induction =>
      simp only [Visit.isAmong, List.any_cons] at induction ⊢
      rw [alike.same first.1 same.1, induction]

theorem addTo (alike : Alike related) (same : Visit.Rel related visit twin)
    (all : List.Forall₂ (Visit.Rel related) visits twins) :
    List.Forall₂ (Visit.Rel related) (visit.addTo visits) (twin.addTo twins) := by
  rw [Visit.addTo, Visit.addTo, alike.isAmong_eq same all]
  split
  · exact all
  · exact List.rel_append all (.cons same .nil)

/-- The members that a search finds on the way down. -/
theorem descend (alike : Alike related) (context : Context) (name : String) (levels : Nat) :
    ∀ {visit : Visit μ} {twin : Visit ν} {found : List (Visit μ)} {others : List (Visit ν)},
      Visit.Rel related visit twin → List.Forall₂ (Visit.Rel related) found others →
        Agree (List.Forall₂ (Visit.Rel related)) (visit.descend context name levels found)
          (twin.descend context name levels others) := by
  induction levels with
  | zero =>
      intro visit twin found others same all
      exact .tooDeep
  | succ levels induction =>
      intro visit twin found others same all
      simp only [Visit.descend]
      refine Agree.foldlM ?_ (alike.visitChildren same) ?_
      · intro sofar sofarTwin child childTwin allSofar sameChild
        exact induction sameChild allSofar
      have member := alike.field name same.1
      rw [alike.kind same.1]
      cases Node.kind twin.node with
      | object =>
          dsimp only
          generalize Node.field visit.node name = first, Node.field twin.node name = second
            at member
          cases member with
          | none => exact all
          | some sameNode => exact alike.addTo (same.child sameNode) all
      | null | bool | number | string | array => exact all

variable {candidate : Candidate μ} {other : Candidate ν} {candidates : List (Candidate μ)}
  {others : List (Candidate ν)}

theorem atIndex? (alike : Alike related) (position : Int)
    (rel : Candidate.Rel related candidate other) :
    Option.Rel (Candidate.Rel related) (candidate.atIndex? position)
      (other.atIndex? position) := by
  cases rel with
  | group all =>
      simp only [Candidate.atIndex?, all.length_eq]
      cases resolveIndex? position _ with
      | none => exact .none
      | some index =>
          exact optionBind_rel (fun _ _ same => .some (.node same)) (getElem?_rel all index)
  | @node visit twin same =>
      have sameKind := alike.kind same.1
      simp only [Candidate.atIndex?, sameKind]
      cases isArray : Node.kind twin.node with
      | array =>
          rw [alike.length same.1 (sameKind.trans isArray)]
          dsimp only
          cases resolveIndex? position _ with
          | none => exact .none
          | some index =>
              exact optionBind_rel (fun _ _ sameNode => .some (.node (same.child sameNode)))
                (alike.element index same.1)
      | null | bool | number | string | object => exact .none

theorem slice? (alike : Alike related) (start stop : Option Int)
    (rel : Candidate.Rel related candidate other) :
    Option.Rel (Candidate.Rel related) (candidate.slice? start stop)
      (other.slice? start stop) := by
  cases rel with
  | group all => exact .some (.group (sliceOf_rel start stop all))
  | @node visit twin same =>
      simp only [Candidate.slice?, alike.kind same.1]
      cases Node.kind twin.node with
      | array => exact .some (.group (sliceOf_rel start stop (alike.visitChildren same)))
      | null | bool | number | string | object => exact .none

theorem tested (alike : Alike related) (fanOut : Bool)
    (rel : Candidate.Rel related candidate other) :
    List.Forall₂ (Visit.Rel related) (candidate.tested fanOut) (other.tested fanOut) := by
  cases rel with
  | group all => exact all
  | @node visit twin same =>
      simp only [Candidate.tested, alike.kind same.1]
      cases fanOut with
      | true => exact .cons same .nil
      | false =>
          cases Node.kind twin.node with
          | array => exact alike.visitChildren same
          | null | bool | number | string | object => exact .cons same .nil

theorem parents (alike : Alike related) {visits : List (Visit μ)} {twins : List (Visit ν)}
    (all : List.Forall₂ (Visit.Rel related) visits twins) :
    List.Forall₂ (Visit.Rel related)
      ((visits.filterMap Visit.parent?).foldl (fun found parent => parent.addTo found) [])
      ((twins.filterMap Visit.parent?).foldl (fun found parent => parent.addTo found) []) := by
  have above : List.Forall₂ (Visit.Rel related) (visits.filterMap Visit.parent?)
      (twins.filterMap Visit.parent?) := by
    apply List.rel_filterMap _ all
    intro visit twin same
    exact same.parent?
  refine List.rel_foldl ?_ .nil above
  intro found foundTwins sofar parent other same
  exact alike.addTo same sofar

theorem indexed (alike : Alike related) (position : Int)
    (all : List.Forall₂ (Candidate.Rel related) candidates others) :
    List.Forall₂ (Candidate.Rel related) (candidates.filterMap (·.atIndex? position))
      (others.filterMap (·.atIndex? position)) := by
  apply List.rel_filterMap _ all
  intro candidate other rel
  exact alike.atIndex? position rel

theorem sliced (alike : Alike related) (start stop : Option Int)
    (all : List.Forall₂ (Candidate.Rel related) candidates others) :
    List.Forall₂ (Candidate.Rel related) (candidates.filterMap (·.slice? start stop))
      (others.filterMap (·.slice? start stop)) := by
  apply List.rel_filterMap _ all
  intro candidate other rel
  exact alike.slice? start stop rel

theorem selector (alike : Alike related) (context : Context)
    (all : List.Forall₂ (Candidate.Rel related) candidates others) (selector : Selector) :
    Agree (List.Forall₂ (Candidate.Rel related)) (selector.apply context candidates)
      (selector.apply context others) := by
  have flat := flatten_rel all
  cases selector with
  | current => exact .pure all
  | index position => exact .pure (alike.indexed position all)
  | slice start stop => exact .pure (alike.sliced start stop all)
  | field name =>
      apply Agree.pure
      apply List.rel_filterMap _ flat
      intro visit twin same
      exact optionMap_rel (fun _ _ same => .node same) (alike.visitField? same name)
  | wildcard =>
      apply Agree.pure
      apply List.rel_flatMap flat
      intro visit twin same
      exact nodes_rel (alike.visitChildren same)
  | recursive name =>
      refine Agree.bind ?_ fun _ _ all => .pure (nodes_rel all)
      refine Agree.foldlM ?_ flat .nil
      intro sofar sofarTwins visit twin allSofar same
      exact alike.descend context name (context.maxDepth + 1) same allSofar
  | parent => exact .pure (nodes_rel (alike.parents flat))

theorem predicate (alike : Alike related) (context : Context) (fanOut : Bool)
    (all : List.Forall₂ (Candidate.Rel related) candidates others) (predicate : Predicate) :
    Agree (List.Forall₂ (Candidate.Rel related)) (predicate.apply context fanOut candidates)
      (predicate.apply context fanOut others) := by
  cases predicate with
  | index position => exact .pure (alike.indexed position all)
  | slice start stop => exact .pure (alike.sliced start stop all)
  | filter condition =>
      refine Agree.bind ?_ fun _ _ all => .pure (nodes_rel all)
      have tests : List.Forall₂ (Visit.Rel related)
          (candidates.flatMap (·.tested fanOut)) (others.flatMap (·.tested fanOut)) := by
        apply List.rel_flatMap all
        intro candidate other rel
        exact alike.tested fanOut rel
      refine filter_agree ?_ tests
      intro visit twin same
      exact alike.toSimilar.evaluate same.1 context condition

theorem step (alike : Alike related) (context : Context)
    (all : List.Forall₂ (Candidate.Rel related) candidates others) (step : Step) :
    Agree (List.Forall₂ (Candidate.Rel related)) (step.apply context candidates)
      (step.apply context others) := by
  apply (alike.selector context all step.selector).bind
  intro selected selectedTwins sameSelected
  have samePredicates : List.Forall₂ Eq step.predicates step.predicates := List.forall₂_refl _
  refine Agree.foldlM ?_ samePredicates sameSelected
  intro sofar sofarTwins predicate _ allSofar equal
  rw [← equal]
  exact alike.predicate context _ allSofar predicate

end Alike

/-! ## Queries -/

theorem decode_toMatch (similar : Similar related) {candidate : Candidate μ}
    {other : Candidate ν} (rel : Candidate.Rel related candidate other) :
    ∃ value, candidate.toMatch.decode = .ok value ∧ other.toMatch.decode = .ok value := by
  cases rel with
  | node same => exact similar.decode same.1
  | @group visits twins all =>
      have nodes : List.Forall₂ related (visits.map Visit.node) (twins.map Visit.node) :=
        List.rel_map (fun _ _ same => same.1) all
      rcases mapM_eq_ok_of_rel (fun _ _ same => similar.decode same) nodes with
        ⟨values, leftValues, rightValues⟩
      refine ⟨.array values, ?_, ?_⟩
      · simp only [Candidate.toMatch, Match.decode, leftValues]
        rfl
      · simp only [Candidate.toMatch, Match.decode, rightValues]
        rfl

/-- A query selects the same values from related nodes, with the same notices, and it fails for
both or for neither. -/
theorem Alike.select (alike : Alike related) (query : Query) (context : Context)
    (same : related left right) :
    Agree Eq (query.select context left) (query.select context right) := by
  have start : List.Forall₂ (Candidate.Rel related) [.node ⟨left, []⟩] [.node ⟨right, []⟩] :=
    .cons (.node ⟨same, .nil⟩) .nil
  have sameSteps : List.Forall₂ Eq query.steps query.steps := List.forall₂_refl _
  have found : Agree (List.Forall₂ (Candidate.Rel related)) (query.candidates context left)
      (query.candidates context right) := by
    refine Agree.foldlM ?_ sameSteps start
    intro sofar sofarTwins step _ allSofar equal
    rw [← equal]
    exact alike.step context allSofar step
  have matched : Agree (List.Forall₂ fun first second => ∃ value,
      Match.decode first = .ok value ∧ Match.decode second = .ok value)
      (query.execute context left) (query.execute context right) := by
    apply found.bind
    intro candidates others all
    apply Agree.pure
    apply List.rel_map _ all
    intro candidate other rel
    exact decode_toMatch alike.toSimilar rel
  apply matched.bind
  intro found twins all
  rcases mapM_eq_ok_of_rel (fun _ _ decoded => decoded) all with ⟨values, leftValues, rightValues⟩
  rw [leftValues, rightValues]
  exact .answer rfl

end JsonQuery
