import JsonQuery.Proofs.Selection.Arena

/-!
Runs in an arena. A run that enters its visits into an arena finds what one finds that carries the
way to every visit along. It is followed operation by operation: each of them leaves a linked arena
in which its answer shows the answer of the other run.
-/

namespace JsonQuery

/-! ## Rules -/

/-- What stands for something in an arena also does so when the arena has grown. -/
def Lasting {α β : Type} (related : Arena Place → α → β → Prop) : Prop :=
  ∀ ⦃arena after : Arena Place⦄ ⦃left : α⦄ ⦃right : β⦄, arena <+: after →
    related arena left right → related after left right

theorem lasting_shows : Lasting Arena.Shows := fun _ _ _ _ grows shows => shows.mono grows

theorem Lasting.all {α β : Type} {related : Arena Place → α → β → Prop}
    (lasting : Lasting related) : Lasting fun arena => List.Forall₂ (related arena) :=
  fun _ _ _ _ grows all => all.imp fun _ _ same => lasting grows same

theorem lasting_eq {α : Type} : Lasting fun _ => @Eq α := fun _ _ _ _ _ same => same

theorem lasting_marks : Lasting Mark.Shows := by
  intro arena after mark candidate grows shows
  cases shows with
  | node shows => exact .node (shows.mono grows)
  | group all => exact .group (lasting_shows.all grows all)

/-- From a linked arena a computation that enters its visits does what one does that carries them
along, and leaves a linked arena in which its answer stands for the answer of the other. -/
structure Follows {α β : Type} (root : Place) (arena : Arena Place)
    (related : Arena Place → α → β → Prop) (entering : Entering Place α) (direct : Traced β) :
    Prop where
  linked : (entering arena).2.Linked root
  grows : arena <+: (entering arena).2
  agree : Agree (related (entering arena).2) (entering arena).1 direct

namespace Follows

variable {α β γ δ : Type} {root : Place} {arena : Arena Place}
  {related : Arena Place → α → β → Prop} {result : Arena Place → γ → δ → Prop}

theorem pure (linked : arena.Linked root) {left : α} {right : β}
    (same : related arena left right) :
    Follows root arena related (Pure.pure left) (Pure.pure right) :=
  ⟨linked, List.prefix_rfl, .pure same⟩

theorem lift (linked : arena.Linked root) {found : Traced α} (answers : found.Answers) :
    Follows root arena (fun _ => Eq) (Entering.lift found) found := by
  refine ⟨linked, List.prefix_rfl, ?_⟩
  rcases answers with ⟨answer, isAnswer⟩
  rcases found with ⟨notices, outcome⟩
  cases isAnswer
  exact .answer rfl

theorem bind {entering : Entering Place α} {direct : Traced β} {more : α → Entering Place γ}
    {further : β → Traced δ} (first : Follows root arena related entering direct)
    (next : ∀ (after : Arena Place) (left : α) (right : β), arena <+: after → after.Linked root →
      related after left right → Follows root after result (more left) (further right)) :
    Follows root arena result (entering >>= more) (direct >>= further) := by
  rcases first with ⟨linked, grows, agree⟩
  generalize isFound : entering arena = found at linked grows agree
  rcases found with ⟨found, after⟩
  have chained : (entering >>= more) arena = Entering.goOn more (found, after) :=
    congrArg (Entering.goOn more) isFound
  cases agree with
  | @answer notices left right same =>
      have later := next _ _ _ grows linked same
      refine ⟨?_, ?_, ?_⟩
      · rw [chained]
        exact later.linked
      · rw [chained]
        exact grows.trans later.grows
      · rw [chained]
        have here : Agree (fun first second => first = left ∧ second = right)
            (⟨notices, .ok left⟩ : Traced α) ⟨notices, .ok right⟩ := .answer ⟨rfl, rfl⟩
        refine here.bind fun first second same => ?_
        rw [same.1, same.2]
        exact later.agree
  | tooDeep =>
      refine ⟨?_, ?_, ?_⟩
      · rw [chained]
        exact linked
      · rw [chained]
        exact grows
      · rw [chained]
        exact .tooDeep

/-- Looking at an entry changes nothing. -/
theorem look {entry : Nat} {visit : Entry Place} (there : arena[entry]? = some visit)
    {more : Option (Entry Place) → Entering Place α} {direct : Traced β}
    (later : Follows root arena related (more (some visit)) direct) :
    Follows root arena related (Entering.entry? entry >>= more) direct := by
  have same : (Entering.entry? entry >>= more) arena = more (some visit) arena := by
    rw [← there]
    rfl
  rcases later with ⟨linked, grows, agree⟩
  rw [← same] at linked grows agree
  exact ⟨linked, grows, agree⟩

theorem collect {each : α → Entering Place (List γ)} {image : β → Traced (List δ)}
    (lasting : Lasting related) (lastingResult : Lasting result)
    (step : ∀ (after : Arena Place) (item : α) (twin : β), after.Linked root →
      related after item twin →
        Follows root after (fun final => List.Forall₂ (result final)) (each item) (image twin))
    (linked : arena.Linked root) {items : List α} {twins : List β}
    (all : List.Forall₂ (related arena) items twins) :
    Follows root arena (fun final => List.Forall₂ (result final)) (JsonQuery.collect each items)
      (JsonQuery.collect image twins) := by
  induction items generalizing arena twins with
  | nil =>
      cases all
      exact pure linked .nil
  | cons item items induction =>
      cases all with
      | cons same others =>
          refine (step _ _ _ linked same).bind fun after _ _ grows linkedFirst sameFirst => ?_
          refine (induction linkedFirst (lasting.all grows others)).bind ?_
          intro final _ _ growsOthers linkedOthers sameOthers
          exact pure linkedOthers
            (List.rel_append (lastingResult.all growsOthers sameFirst) sameOthers)

theorem foldlM {step : γ → α → Entering Place γ} {image : δ → β → Traced δ}
    (lasting : Lasting related)
    (each : ∀ (after : Arena Place) (left : γ) (right : δ) (item : α) (twin : β),
      after.Linked root → result after left right → related after item twin →
        Follows root after result (step left item) (image right twin))
    (linked : arena.Linked root) {items : List α} {twins : List β}
    (all : List.Forall₂ (related arena) items twins) {left : γ} {right : δ}
    (start : result arena left right) :
    Follows root arena result (items.foldlM step left) (twins.foldlM image right) := by
  induction items generalizing arena twins left right with
  | nil =>
      cases all
      exact pure linked start
  | cons item items induction =>
      cases all with
      | cons same others =>
          rw [List.foldlM_cons, List.foldlM_cons]
          refine (each _ _ _ _ _ linked start same).bind ?_
          intro after _ _ grows linkedFirst sameFirst
          exact induction linkedFirst (lasting.all grows others) sameFirst

end Follows

/-! ## Lists of computations -/

theorem Traced.bind_assoc {α β γ : Type} (first : Traced α) (next : α → Traced β)
    (last : β → Traced γ) :
    first >>= next >>= last = first >>= fun answer => next answer >>= last := by
  rcases first with ⟨notices, error | answer⟩
  · rfl
  · rcases isNext : next answer with ⟨more, error | found⟩
    · simp [bind, andThen, isNext]
    · simp [bind, andThen, isNext]

theorem Traced.bind_pure {α : Type} (first : Traced α) : first >>= pure = first := by
  rcases first with ⟨notices, error | answer⟩
  · rfl
  · simp [bind, andThen, pure]

theorem collect_pure {α β : Type} (image : α → List β) (items : List α) :
    collect (fun item => (pure (image item) : Traced (List β))) items =
      pure (items.flatMap image) := by
  induction items with
  | nil => rfl
  | cons item items induction =>
      rw [collect, Traced.pure_bind, induction]
      rfl

theorem collect_singleton {α β : Type} (each : α → Traced (List β)) (item : α) :
    collect each [item] = each item := by
  simp only [collect, Traced.pure_bind, List.append_nil]
  exact Traced.bind_pure (each item)

theorem filter_eq_collect (test : Place → Traced Bool) (visits : List (Visit Place)) :
    Traced.filter test visits = collect (fun visit => do
      if ← test visit.node then return [visit] else return []) visits := by
  induction visits with
  | nil => rfl
  | cons visit visits induction =>
      rw [Traced.filter, collect, induction, Traced.bind_assoc]
      congr
      funext passes
      cases passes <;> rfl

theorem filter_append (test : Place → Traced Bool) (first second : List (Visit Place)) :
    Traced.filter test (first ++ second) = do
      let kept ← Traced.filter test first
      let others ← Traced.filter test second
      return kept ++ others := by
  induction first with
  | nil => exact (Traced.bind_pure _).symm
  | cons visit first induction =>
      simp only [List.cons_append, Traced.filter, induction, Traced.bind_assoc, Traced.pure_bind]
      congr
      funext passes
      cases passes <;> rfl

theorem filter_flatMap {α : Type} (test : Place → Traced Bool) (visits : α → List (Visit Place))
    (items : List α) : Traced.filter test (items.flatMap visits) =
      collect (fun item => Traced.filter test (visits item)) items := by
  induction items with
  | nil => rfl
  | cons item items induction => rw [List.flatMap_cons, filter_append, collect, induction]

/-! ## Visits -/

theorem Place.walk?_mem {place found : Place} {segment : Segment}
    (leads : Node.walk? place segment = some found) : found ∈ Node.children place := by
  unfold Node.walk? at leads
  split at leads
  next =>
    split at leads
    next => exact field_mem leads
    next =>
      rcases Option.bind_eq_some_iff.mp leads with ⟨position, _, isElement⟩
      exact element_mem isElement
    next => cases leads
  next =>
    split at leads
    next =>
      rcases Option.bind_eq_some_iff.mp leads with ⟨index, _, isElement⟩
      exact element_mem isElement
    next => cases leads

/-- A node that is still to be entered below an entry, and the visit to it. -/
def ChildBelow (entry : Nat) (visit : Visit Place) (arena : Arena Place) (node : Place)
    (child : Visit Place) : Prop :=
  arena.Shows entry visit ∧ node ∈ Node.children visit.node ∧ child = visit.child node

theorem lasting_childBelow (entry : Nat) (visit : Visit Place) :
    Lasting (ChildBelow entry visit) :=
  fun _ _ _ _ grows same => ⟨same.1.mono grows, same.2⟩

theorem childBelow_map {arena : Arena Place} {entry : Nat} {visit : Visit Place}
    (shows : arena.Shows entry visit) {nodes : List Place}
    (chosen : ∀ node ∈ nodes, node ∈ Node.children visit.node) :
    List.Forall₂ (ChildBelow entry visit arena) nodes (nodes.map visit.child) := by
  rw [List.forall₂_map_right_iff, List.forall₂_same]
  exact fun node there => ⟨shows, chosen node there, rfl⟩

/-- Adds a member to those found, if there is one. -/
def Visit.addMember (found : List (Visit Place)) : Option (Visit Place) → List (Visit Place)
  | none => found
  | some member => member.addTo found

namespace Follows

variable {root : Place} {arena : Arena Place} {entry : Nat} {entries : List Nat}
  {visit : Visit Place} {visits : List (Visit Place)} (linked : arena.Linked root)

include linked

theorem enter {node : Place} {child : Visit Place}
    (below : ChildBelow entry visit arena node child) :
    Follows root arena Arena.Shows (Entering.enter entry node) (Pure.pure child) := by
  rcases below with ⟨shows, isChild, rfl⟩
  rcases shows.getElem? with ⟨parent, there⟩
  have grows : arena <+: arena ++ [⟨node, some entry⟩] := List.prefix_append _ _
  refine ⟨linked.enter there isChild, grows, .pure ?_⟩
  exact .child List.getElem?_concat_length (shows.mono grows)

theorem enterBelow (shows : arena.Shows entry visit) (choose : Place → List Place)
    (chosen : ∀ node ∈ choose visit.node, node ∈ Node.children visit.node) :
    Follows root arena (fun after => List.Forall₂ after.Shows) (Entering.enterBelow choose entry)
      (Pure.pure ((choose visit.node).map visit.child)) := by
  rcases shows.getElem? with ⟨parent, there⟩
  refine look there ?_
  have entered : Follows root arena (fun after => List.Forall₂ after.Shows)
      (JsonQuery.collect (fun node => do return [← Entering.enter entry node]) (choose visit.node))
      (JsonQuery.collect (fun child => Pure.pure [child])
        ((choose visit.node).map visit.child)) := by
    refine collect (lasting_childBelow entry visit) lasting_shows ?_ linked
      (childBelow_map shows chosen)
    intro after node child linked below
    show Follows _ _ _ _ (Pure.pure child >>= fun child => Pure.pure [child])
    exact (enter linked below).bind fun _ _ _ _ linked shows => pure linked (.cons shows .nil)
  rwa [collect_pure, List.flatMap_singleton'] at entered

theorem enterWalk (shows : arena.Shows entry visit) (segment : Segment) :
    Follows root arena (fun after => List.Forall₂ after.Shows)
      (Entering.enterBelow (fun node => (Node.walk? node segment).toList) entry)
      (Pure.pure (visit.walk? segment).toList) := by
  have entered := enterBelow linked shows (fun node => (Node.walk? node segment).toList)
    fun node there => Place.walk?_mem (Option.mem_toList.mp there)
  have same : (Node.walk? visit.node segment).toList.map visit.child =
      (visit.walk? segment).toList := by
    rw [Visit.walk?]
    cases Node.walk? visit.node segment <;> rfl
  rwa [same] at entered

theorem isAmong (all : List.Forall₂ arena.Shows entries visits) (visit : Visit Place) :
    Follows root arena (fun _ => Eq) (Entering.isAmong visit.node entries)
      (Pure.pure (visit.isAmong visits)) := by
  refine ⟨linked, List.prefix_rfl, .pure ?_⟩
  induction all with
  | nil => rfl
  | cons shows others induction =>
      rcases shows.getElem? with ⟨parent, there⟩
      rw [List.any_cons, induction, there]
      rfl

theorem addTo (shows : arena.Shows entry visit) (all : List.Forall₂ arena.Shows entries visits) :
    Follows root arena (fun after => List.Forall₂ after.Shows) (Entering.addTo entry entries)
      (Pure.pure (visit.addTo visits)) := by
  rcases shows.getElem? with ⟨parent, there⟩
  refine look there ?_
  show Follows _ _ _ _ (Pure.pure (visit.isAmong visits) >>= fun among =>
    Pure.pure (if among then visits else visits ++ [visit]))
  refine (isAmong linked all visit).bind fun after among _ grows linked same => ?_
  have allStill := lasting_shows.all grows all
  rw [← same]
  cases among with
  | true => exact ⟨linked, List.prefix_rfl, .pure allStill⟩
  | false =>
      have more := List.rel_append allStill (.cons (shows.mono grows) .nil)
      exact ⟨linked, List.prefix_rfl, .pure more⟩

theorem addMember (shows : arena.Shows entry visit)
    (all : List.Forall₂ arena.Shows entries visits) {member : Option Place}
    (isChild : ∀ node ∈ member, node ∈ Node.children visit.node) :
    Follows root arena (fun after => List.Forall₂ after.Shows)
      (Entering.addMember entry entries member)
      (Pure.pure (Visit.addMember visits (member.map visit.child))) := by
  cases member with
  | none => exact ⟨linked, List.prefix_rfl, .pure all⟩
  | some node =>
      show Follows _ _ _ _ (Pure.pure ((visit.child node).isAmong visits) >>= fun among =>
        Pure.pure (if among then visits else visits ++ [visit.child node]))
      refine (isAmong linked all (visit.child node)).bind fun after among _ grows linked same => ?_
      have allStill := lasting_shows.all grows all
      rw [← same]
      cases among with
      | true => exact ⟨linked, List.prefix_rfl, .pure allStill⟩
      | false =>
          have below : ChildBelow entry visit after node (visit.child node) :=
            ⟨shows.mono grows, isChild node rfl, rfl⟩
          show Follows _ _ _ (Entering.enter entry node >>= fun new => Pure.pure (entries ++ [new]))
            (Pure.pure (visit.child node) >>= fun child => Pure.pure (visits ++ [child]))
          refine (enter linked below).bind fun final _ _ grows linked entered => ?_
          have more := List.rel_append (lasting_shows.all grows allStill) (.cons entered .nil)
          exact ⟨linked, List.prefix_rfl, .pure more⟩

theorem descend (context : Context) (name : String) (levels : Nat)
    (shows : arena.Shows entry visit) (all : List.Forall₂ arena.Shows entries visits) :
    Follows root arena (fun after => List.Forall₂ after.Shows)
      (Entering.descend context name levels entry entries)
      (visit.descend context name levels visits) := by
  induction levels generalizing arena entry visit entries visits with
  | zero => exact ⟨linked, List.prefix_rfl, .tooDeep⟩
  | succ levels induction =>
      rcases shows.getElem? with ⟨parent, there⟩
      refine look there ?_
      have followed (member : Option Place)
          (isChild : ∀ node ∈ member, node ∈ Node.children visit.node) :
          Follows root arena (fun after => List.Forall₂ after.Shows)
            (Entering.addMember entry entries member >>= fun found =>
              (Node.children visit.node).foldlM (fun found child => do
                Entering.descend context name levels (← Entering.enter entry child) found) found)
            (Pure.pure (Visit.addMember visits (member.map visit.child)) >>= fun found =>
              visit.children.foldlM (fun found child =>
                child.descend context name levels found) found) := by
        refine (addMember linked shows all isChild).bind fun after _ _ grows linked found => ?_
        refine foldlM (lasting_childBelow entry visit) ?_ linked
          (childBelow_map (shows.mono grows) fun _ there => there) found
        intro after found foundVisits node child linked allFound below
        show Follows _ _ _ _ (Pure.pure child >>= fun child =>
          child.descend context name levels foundVisits)
        refine (enter linked below).bind fun final _ _ grows linked entered => ?_
        exact induction linked entered (lasting_shows.all grows allFound)
      simp only [Traced.pure_bind] at followed
      have nothing : ∀ node ∈ (none : Option Place), node ∈ Node.children visit.node :=
        fun node same => absurd same (Option.not_mem_none node)
      rw [Visit.descend]
      dsimp only
      cases Node.kind visit.node with
      | object =>
          dsimp only
          cases isMember : Node.field visit.node name with
          | none => exact followed none nothing
          | some node =>
              exact followed (some node) fun _ same => Place.field_mem (isMember.trans same)
      | null | bool | number | string | array => exact followed none nothing

theorem parents (shows : arena.Shows entry visit) :
    Follows root arena (fun after => List.Forall₂ after.Shows) (Entering.parents entry)
      (Pure.pure visit.parent?.toList) := by
  cases shows with
  | first there => exact look there (pure linked .nil)
  | child there link => exact look there (pure linked (.cons link .nil))

theorem keep {test : Place → Traced Bool} (answers : ∀ place, (test place).Answers)
    (shows : arena.Shows entry visit) :
    Follows root arena (fun after => List.Forall₂ after.Shows) (Entering.keep test entry)
      (do if ← test visit.node then return [visit] else return []) := by
  rcases shows.getElem? with ⟨parent, there⟩
  refine look there ((lift linked (answers visit.node)).bind ?_)
  intro after passes _ grows linked same
  rw [← same]
  cases passes with
  | true => exact ⟨linked, List.prefix_rfl, .pure (.cons (shows.mono grows) .nil)⟩
  | false => exact ⟨linked, List.prefix_rfl, .pure .nil⟩

end Follows

/-! ## Candidates -/

theorem flatten_shows {arena : Arena Place} {marks : List Mark}
    {candidates : List (Candidate Place)}
    (all : List.Forall₂ (Mark.Shows arena) marks candidates) :
    List.Forall₂ arena.Shows (Mark.flatten marks) (Candidate.flatten candidates) := by
  apply List.rel_flatMap all
  intro mark candidate shows
  cases shows with
  | node shows => exact .cons shows .nil
  | group all => exact all

theorem nodes_shows {arena : Arena Place} {entries : List Nat} {visits : List (Visit Place)}
    (all : List.Forall₂ arena.Shows entries visits) :
    List.Forall₂ (Mark.Shows arena) (entries.map .node) (visits.map .node) :=
  List.rel_map (fun _ _ shows => .node shows) all

/-- Marks that show candidates. -/
abbrev FollowsCandidates (root : Place) (arena : Arena Place) :=
  Follows root arena fun after => List.Forall₂ (Mark.Shows after)

namespace FollowsCandidates

variable {root : Place} {arena : Arena Place} {mark : Mark} {marks : List Mark}
  {candidate : Candidate Place} {candidates : List (Candidate Place)}

theorem nodes {entering : Entering Place (List Nat)} {direct : Traced (List (Visit Place))}
    (found : Follows root arena (fun after => List.Forall₂ after.Shows) entering direct) :
    FollowsCandidates root arena (do return (← entering).map Mark.node)
      (do return (← direct).map Candidate.node) :=
  found.bind fun _ _ _ _ linked all => .pure linked (nodes_shows all)

variable (linked : arena.Linked root)

include linked

theorem atIndex (position : Int) (shows : Mark.Shows arena mark candidate) :
    FollowsCandidates root arena (Entering.atIndex position mark)
      (pure (candidate.atIndex? position).toList) := by
  cases shows with
  | @group entries visits all =>
      refine .pure linked ?_
      rw [Candidate.atIndex?, all.length_eq]
      cases resolveIndex? position visits.length with
      | none => exact .nil
      | some index =>
          have found := getElem?_rel all index
          simp only [Option.bind_eq_bind, Option.bind_some]
          generalize entries[index]? = entry, visits[index]? = visit at found
          cases found with
          | none => exact .nil
          | some shows => exact .cons (.node shows) .nil
  | @node entry visit shows =>
      have found := nodes (Follows.enterWalk linked shows (.index position))
      have same : ((visit.walk? (.index position)).toList.map Candidate.node) =
          ((Candidate.node visit).atIndex? position).toList := by
        rw [Candidate.atIndex?_node]
        cases visit.walk? (.index position) <;> rfl
      rwa [Traced.pure_bind, same] at found

theorem slice (start stop : Option Int) (shows : Mark.Shows arena mark candidate) :
    FollowsCandidates root arena (Entering.slice start stop mark)
      (pure (candidate.slice? start stop).toList) := by
  cases shows with
  | group all => exact .pure linked (.cons (.group (sliceOf_rel start stop all)) .nil)
  | @node entry visit shows =>
      rcases shows.getElem? with ⟨parent, there⟩
      refine .look there ?_
      rw [Candidate.slice?, Option.map_some]
      cases Node.kind visit.node with
      | array =>
          have part := (Candidate.sliceOf_sublist start stop (Node.children visit.node)).subset
          have entered := Follows.enterBelow linked shows
            (fun node => sliceOf start stop (Node.children node)) fun node there => part there
          rw [← sliceOf_map] at entered
          show FollowsCandidates _ _ _ (pure (sliceOf start stop visit.children) >>= fun members =>
            pure [.group members])
          exact entered.bind fun _ _ _ _ linked all => .pure linked (.cons (.group all) .nil)
      | null | bool | number | string | object => exact .pure linked .nil

theorem filter {test : Place → Traced Bool} (answers : ∀ place, (test place).Answers)
    (fanOut : Bool) (shows : Mark.Shows arena mark candidate) :
    Follows root arena (fun after => List.Forall₂ after.Shows) (Entering.filter test fanOut mark)
      (Traced.filter test (candidate.tested fanOut)) := by
  rw [filter_eq_collect]
  cases shows with
  | group all =>
      refine Follows.collect lasting_shows lasting_shows ?_ linked all
      exact fun _ _ _ linked shows => .keep linked answers shows
  | @node entry visit shows =>
      rcases shows.getElem? with ⟨parent, there⟩
      refine .look there ?_
      have alone : Follows root arena (fun after => List.Forall₂ after.Shows)
          (Entering.keep test entry)
          (collect (fun visit => do
            if ← test visit.node then return [visit] else return []) [visit]) := by
        rw [collect_singleton]
        exact .keep linked answers shows
      cases fanOut with
      | true => exact alone
      | false =>
          unfold Candidate.tested
          dsimp only
          cases Node.kind visit.node with
          | array =>
              refine Follows.collect (lasting_childBelow entry visit) lasting_shows ?_ linked
                (childBelow_map shows fun _ there => there)
              intro after node child linked below
              show Follows _ _ _ _ (pure child >>= fun child => do
                if ← test child.node then return [child] else return [])
              refine (Follows.enter linked below).bind fun _ _ _ _ linked shows => ?_
              exact .keep linked answers shows
          | null | bool | number | string | object => exact alone

end FollowsCandidates

/-! ## Steps -/

theorem pure_filterMap {α β : Type} (change : α → Option β) (items : List α) :
    (pure (items.filterMap change) : Traced (List β)) =
      collect (fun item => pure (change item).toList) items := by
  rw [collect_pure, List.filterMap_eq_flatMap_toList]

theorem pure_foldl {α β : Type} (step : β → α → β) (items : List α) (start : β) :
    (pure (items.foldl step start) : Traced β) =
      items.foldlM (fun done item => pure (step done item)) start := by
  induction items generalizing start with
  | nil => rfl
  | cons item items induction =>
      rw [List.foldl_cons, List.foldlM_cons, Traced.pure_bind, induction]

section Steps

variable (context : Context) {root : Place} {arena : Arena Place} {marks : List Mark}
  {candidates : List (Candidate Place)} (linked : arena.Linked root)
  (all : List.Forall₂ (Mark.Shows arena) marks candidates)

include linked all

theorem FollowsCandidates.indexed (position : Int) :
    FollowsCandidates root arena (collect (Entering.atIndex position) marks)
      (pure (candidates.filterMap (·.atIndex? position))) := by
  rw [pure_filterMap]
  exact .collect lasting_marks lasting_marks
    (fun _ _ _ linked shows => atIndex linked position shows) linked all

theorem FollowsCandidates.sliced (start stop : Option Int) :
    FollowsCandidates root arena (collect (Entering.slice start stop) marks)
      (pure (candidates.filterMap (·.slice? start stop))) := by
  rw [pure_filterMap]
  exact .collect lasting_marks lasting_marks
    (fun _ _ _ linked shows => slice linked start stop shows) linked all

theorem Selector.follows (selector : Selector) :
    FollowsCandidates root arena (selector.enter context marks)
      (selector.apply context candidates) := by
  have flat := flatten_shows all
  cases selector with
  | current => exact .pure linked all
  | index position => exact .indexed linked all position
  | slice start stop => exact .sliced linked all start stop
  | field name =>
      have found : Follows root arena (fun after => List.Forall₂ after.Shows)
          (collect (Entering.enterBelow fun node => (Node.walk? node (.key name)).toList)
            (Mark.flatten marks))
          (pure ((Candidate.flatten candidates).filterMap fun visit => visit.field? name)) := by
        rw [pure_filterMap]
        refine .collect lasting_shows lasting_shows (fun _ _ visit linked shows => ?_) linked flat
        rw [Visit.field?_eq_walk?]
        exact .enterWalk linked shows (.key name)
      have named := FollowsCandidates.nodes found
      rwa [Traced.pure_bind, List.map_filterMap] at named
  | wildcard =>
      have found : Follows root arena (fun after => List.Forall₂ after.Shows)
          (collect (Entering.enterBelow Node.children) (Mark.flatten marks))
          (pure ((Candidate.flatten candidates).flatMap Visit.children)) := by
        rw [← collect_pure]
        refine .collect lasting_shows lasting_shows (fun _ _ visit linked shows => ?_) linked flat
        exact .enterBelow linked shows Node.children fun _ there => there
      have entered := FollowsCandidates.nodes found
      rwa [Traced.pure_bind, List.map_flatMap] at entered
  | recursive name =>
      refine FollowsCandidates.nodes (.foldlM lasting_shows ?_ linked flat .nil)
      exact fun _ _ _ _ _ linked found shows => .descend linked context name _ shows found
  | parent =>
      have parents : Follows root arena (fun after => List.Forall₂ after.Shows)
          (collect Entering.parents (Mark.flatten marks))
          (pure ((Candidate.flatten candidates).filterMap Visit.parent?)) := by
        rw [pure_filterMap]
        exact .collect lasting_shows lasting_shows (fun _ _ _ linked shows => .parents linked shows)
          linked flat
      have added : FollowsCandidates root arena (Selector.enter context marks .parent)
          (pure ((Candidate.flatten candidates).filterMap Visit.parent?) >>= fun parents => do
            let found ← parents.foldlM (fun found parent => pure (parent.addTo found)) []
            return found.map Candidate.node) := by
        refine parents.bind fun _ _ _ _ linked all => FollowsCandidates.nodes ?_
        refine .foldlM lasting_shows ?_ linked all .nil
        exact fun _ _ _ _ _ linked found shows => .addTo linked shows found
      rwa [Traced.pure_bind, ← pure_foldl, Traced.pure_bind] at added

theorem Predicate.follows (fanOut : Bool) (predicate : Predicate) :
    FollowsCandidates root arena (predicate.enter context fanOut marks)
      (predicate.apply context fanOut candidates) := by
  cases predicate with
  | index position => exact .indexed linked all position
  | slice start stop => exact .sliced linked all start stop
  | filter condition =>
      refine FollowsCandidates.nodes ?_
      rw [filter_flatMap]
      refine .collect lasting_marks lasting_shows (fun _ _ _ linked shows => ?_) linked all
      exact FollowsCandidates.filter linked
        (fun place => condition.answers_evaluate context place) fanOut shows

theorem Step.follows (step : Step) :
    FollowsCandidates root arena (step.enter context marks) (step.apply context candidates) := by
  refine (step.selector.follows context linked all).bind fun _ _ _ _ linked all => ?_
  refine .foldlM lasting_eq ?_ linked (List.forall₂_refl _) all
  rintro _ _ _ predicate _ linked all rfl
  exact predicate.follows context linked all step.selector.isFanOut

end Steps

theorem Query.follows (query : Query) (context : Context) (root : Place) :
    FollowsCandidates root [⟨root, none⟩]
      (query.steps.foldlM (Step.enter context) [.node 0]) (query.candidates context root) := by
  refine .foldlM lasting_eq ?_ (Arena.linked_start root) (List.forall₂_refl _)
    (.cons (.node (.first rfl)) .nil)
  rintro _ _ _ step _ linked all rfl
  exact step.follows context linked all

end JsonQuery
