import JsonQuery.Selection.Execute

/-!
Queries give notice of unknown functions and of descents that go too deep, and of nothing else:
running one never reports that a document is being decoded.
-/

namespace JsonQuery

/-- Whether a notice reports that a text is being decoded. -/
def Notice.isMaterializing : Notice → Bool
  | .materializing _ => true
  | _ => false

/-- None of the notices reports decoding. -/
def Traced.Quiet {α : Type} (traced : Traced α) : Prop :=
  ∀ notice ∈ traced.notices, notice.isMaterializing = false

namespace Traced.Quiet

variable {α β γ : Type}

theorem pure (answer : α) : Quiet (Pure.pure answer : Traced α) := List.forall_mem_nil _

theorem ofExcept (outcome : Except QueryError α) : Quiet (Traced.ofExcept outcome) :=
  List.forall_mem_nil _

theorem notice {notice : Notice} (other : notice.isMaterializing = false) :
    Quiet (Traced.notice notice) :=
  List.forall_mem_singleton.mpr other

theorem bind {first : Traced α} {next : α → Traced β} (quiet : Quiet first)
    (later : ∀ answer, Quiet (next answer)) : Quiet (first >>= next) := by
  rcases first with ⟨notices, outcome⟩
  cases outcome with
  | error error => exact quiet
  | ok answer => exact List.forall_mem_append.mpr ⟨quiet, later answer⟩

theorem foldlM {step : γ → α → Traced γ} (quiet : ∀ found item, Quiet (step found item))
    (items : List α) : ∀ found, Quiet (items.foldlM step found) := by
  induction items with
  | nil => exact fun found => pure found
  | cons item items induction =>
      intro found
      rw [List.foldlM_cons]
      exact (quiet found item).bind induction

theorem filter {ν : Type} {test : ν → Traced Bool} (quiet : ∀ node, Quiet (test node)) :
    ∀ visits : List (Visit ν), Quiet (Traced.filter test visits)
  | [] => pure _
  | visit :: visits =>
      (quiet visit.node).bind fun _ => (filter quiet visits).bind fun _ => pure _

end Traced.Quiet

open Traced (Quiet)

variable {ν : Type} [Node ν] (context : Context)

theorem quiet_call (name : String) {arguments : Unit → Traced (List Operand)}
    (quiet : Quiet (arguments ())) : Quiet (context.call name arguments) := by
  rw [Context.call]
  cases context.functions.find? name with
  | none => exact (Quiet.notice rfl).bind fun _ => .pure _
  | some function => exact quiet.bind fun _ => .pure _

namespace Expression

theorem quiet_resolveReference (node : ν) (segments : List Segment) :
    Quiet (resolveReference node segments) := by
  rw [resolveReference]
  cases Node.followAll? node segments with
  | none => exact .pure _
  | some found => exact (Quiet.ofExcept _).bind fun _ => .pure _

mutual

theorem quiet_evaluate (node : ν) : ∀ condition : Expression,
    Quiet (condition.evaluate context node)
  | .literal value => .pure _
  | .reference segments => .pure _
  | .call name arguments =>
      (quiet_call context name (quiet_resolveAll node arguments)).bind fun _ => .pure _
  | .binary .and first second =>
      (quiet_evaluate node first).bind fun answer => by
        cases answer with
        | true => exact quiet_evaluate node second
        | false => exact .pure _
  | .binary .or first second =>
      (quiet_evaluate node first).bind fun answer => by
        cases answer with
        | true => exact .pure _
        | false => exact quiet_evaluate node second
  | .binary .equal first second | .binary .notEqual first second | .binary .less first second
  | .binary .lessOrEqual first second | .binary .greater first second
  | .binary .greaterOrEqual first second =>
      (quiet_resolve node first).bind fun _ => (quiet_resolve node second).bind fun _ => .pure _
  | .not operand => (quiet_evaluate node operand).bind fun _ => .pure _

theorem quiet_resolve (node : ν) : ∀ expression : Expression,
    Quiet (expression.resolve context node)
  | .literal value => .pure _
  | .reference segments => quiet_resolveReference node segments
  | .call name arguments => quiet_call context name (quiet_resolveAll node arguments)
  | .binary .and first second =>
      (quiet_evaluate node first).bind fun answer => by
        cases answer with
        | true => exact (quiet_evaluate node second).bind fun _ => .pure _
        | false => exact .pure _
  | .binary .or first second =>
      (quiet_evaluate node first).bind fun answer => by
        cases answer with
        | true => exact .pure _
        | false => exact (quiet_evaluate node second).bind fun _ => .pure _
  | .binary .equal first second | .binary .notEqual first second | .binary .less first second
  | .binary .lessOrEqual first second | .binary .greater first second
  | .binary .greaterOrEqual first second =>
      (quiet_resolve node first).bind fun _ => (quiet_resolve node second).bind fun _ => .pure _
  | .not operand => (quiet_evaluate node operand).bind fun _ => .pure _

theorem quiet_resolveAll (node : ν) : ∀ expressions : List Expression,
    Quiet (resolveAll context node expressions)
  | [] => .pure _
  | expression :: expressions =>
      (quiet_resolve node expression).bind fun _ =>
        (quiet_resolveAll node expressions).bind fun _ => .pure _

end

end Expression

/-- A descent gives notice only where it goes too deep. -/
theorem Visit.quiet_descend (name : String) (levels : Nat) : ∀ (visit : Visit ν)
    (found : List (Visit ν)), Quiet (visit.descend context name levels found) := by
  induction levels with
  | zero => exact fun _ _ => (Quiet.notice rfl).bind fun _ => .ofExcept _
  | succ levels induction =>
      intro visit found
      exact Quiet.foldlM (fun found child => induction child found) _ _

theorem Selector.quiet_apply (candidates : List (Candidate ν)) (selector : Selector) :
    Quiet (selector.apply context candidates) := by
  cases selector with
  | recursive name =>
      have descended := Quiet.foldlM
        (fun found visit => Visit.quiet_descend context name (context.maxDepth + 1) visit found)
        (Candidate.flatten candidates) []
      exact descended.bind fun _ => .pure _
  | _ => exact .pure _

theorem Predicate.quiet_apply (fanOut : Bool) (candidates : List (Candidate ν))
    (predicate : Predicate) : Quiet (predicate.apply context fanOut candidates) := by
  cases predicate with
  | filter condition =>
      exact (Quiet.filter (condition.quiet_evaluate context) _).bind fun _ => .pure _
  | _ => exact .pure _

theorem Step.quiet_apply (candidates : List (Candidate ν)) (step : Step) :
    Quiet (step.apply context candidates) :=
  (step.selector.quiet_apply context candidates).bind fun selected =>
    Quiet.foldlM (fun selected predicate =>
      predicate.quiet_apply context step.selector.isFanOut selected) _ selected

theorem Query.quiet_select (query : Query) (node : ν) : Quiet (query.select context node) := by
  have stepped := Quiet.foldlM (Step.quiet_apply (ν := ν) context) query.steps [.node ⟨node, []⟩]
  exact (stepped.bind fun _ => .pure _).bind fun _ => .ofExcept _

end JsonQuery
