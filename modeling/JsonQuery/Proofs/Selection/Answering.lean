import JsonQuery.Selection.Execute
import JsonQuery.Source.Tree

/-!
Queries on a decoded tree. Only decoding can fail in a filter, and a tree is decoded already: every
filter has an answer, filtering keeps the visits for which it holds, and every match has a value.
-/

namespace JsonQuery

/-- A traced computation that has an answer. -/
def Traced.Answers {α : Type} (traced : Traced α) : Prop :=
  ∃ answer, traced.outcome = .ok answer

namespace Traced.Answers

variable {α β : Type}

theorem pure (answer : α) : Answers (Pure.pure answer : Traced α) := ⟨answer, rfl⟩

theorem bind {first : Traced α} {next : α → Traced β} (answers : Answers first)
    (later : ∀ answer, Answers (next answer)) : Answers (first >>= next) := by
  rcases answers with ⟨found, isFound⟩
  rcases later found with ⟨answer, isAnswer⟩
  refine ⟨answer, ?_⟩
  rw [outcome_bind, isFound]
  exact isAnswer

end Traced.Answers

/-- A loop goes through the same outcomes, whatever notices are given on the way. -/
theorem Traced.outcome_foldlM {α β : Type} (step : β → α → Traced β) (items : List α) :
    ∀ start : β, (items.foldlM step start).outcome =
      items.foldlM (fun done item => (step done item).outcome) start := by
  induction items with
  | nil =>
      intro start
      rfl
  | cons item items induction =>
      intro start
      simp only [List.foldlM_cons, Traced.outcome_bind, induction]

open Traced (Answers)

variable (context : Context) (place : Place)

theorem answers_call (name : String) {arguments : Unit → Traced (List Operand)}
    (answers : Answers (arguments ())) : Answers (context.call name arguments) := by
  rw [Context.call]
  cases context.functions.find? name with
  | none => exact ⟨.absent, rfl⟩
  | some function => exact answers.bind fun _ => .pure _

namespace Expression

theorem answers_resolveReference (segments : List Segment) :
    Answers (resolveReference place segments) := by
  rw [resolveReference]
  cases Node.followAll? place segments with
  | none => exact .pure _
  | some found => exact ⟨.value found.value, rfl⟩

mutual

theorem answers_evaluate : ∀ condition : Expression, Answers (condition.evaluate context place)
  | .literal value => .pure _
  | .reference segments => .pure _
  | .call name arguments =>
      (answers_call context name (answers_resolveAll arguments)).bind fun _ => .pure _
  | .binary .and first second =>
      (answers_evaluate first).bind fun answer => by
        cases answer with
        | true => exact answers_evaluate second
        | false => exact .pure _
  | .binary .or first second =>
      (answers_evaluate first).bind fun answer => by
        cases answer with
        | true => exact .pure _
        | false => exact answers_evaluate second
  | .binary .equal first second | .binary .notEqual first second | .binary .less first second
  | .binary .lessOrEqual first second | .binary .greater first second
  | .binary .greaterOrEqual first second =>
      (answers_resolve first).bind fun _ => (answers_resolve second).bind fun _ => .pure _
  | .not operand => (answers_evaluate operand).bind fun _ => .pure _

theorem answers_resolve : ∀ expression : Expression, Answers (expression.resolve context place)
  | .literal value => .pure _
  | .reference segments => answers_resolveReference place segments
  | .call name arguments => answers_call context name (answers_resolveAll arguments)
  | .binary .and first second =>
      (answers_evaluate first).bind fun answer => by
        cases answer with
        | true => exact (answers_evaluate second).bind fun _ => .pure _
        | false => exact .pure _
  | .binary .or first second =>
      (answers_evaluate first).bind fun answer => by
        cases answer with
        | true => exact .pure _
        | false => exact (answers_evaluate second).bind fun _ => .pure _
  | .binary .equal first second | .binary .notEqual first second | .binary .less first second
  | .binary .lessOrEqual first second | .binary .greater first second
  | .binary .greaterOrEqual first second =>
      (answers_resolve first).bind fun _ => (answers_resolve second).bind fun _ => .pure _
  | .not operand => (answers_evaluate operand).bind fun _ => .pure _

theorem answers_resolveAll : ∀ expressions : List Expression,
    Answers (resolveAll context place expressions)
  | [] => .pure _
  | expression :: expressions =>
      (answers_resolve expression).bind fun _ =>
        (answers_resolveAll expressions).bind fun _ => .pure _

end

end Expression

/-- Whether a condition holds for a place of a tree. -/
def Expression.holds (context : Context) (condition : Expression) (place : Place) : Bool :=
  match (condition.evaluate context place).outcome with
  | .ok holds => holds
  | .error _ => false

theorem Expression.evaluate_place (condition : Expression) :
    (condition.evaluate context place).outcome = .ok (condition.holds context place) := by
  rcases answers_evaluate context place condition with ⟨answer, isAnswer⟩
  rw [holds, isAnswer]

/-- Filtering the visits of a tree keeps those for which the condition holds. -/
theorem filter_places (condition : Expression) (visits : List (Visit Place)) :
    (Traced.filter (fun place => condition.evaluate context place) visits).outcome =
      .ok (visits.filter fun visit => condition.holds context visit.node) := by
  induction visits with
  | nil => rfl
  | cons visit visits induction =>
      simp only [Traced.filter, Traced.outcome_bind, condition.evaluate_place, induction,
        List.filter_cons]
      rfl

/-! ## The values of candidates -/

namespace Candidate

/-- What a candidate in a tree comes to as a match. -/
def value : Candidate Place → Json
  | .node visit => visit.node.value
  | .group members => .array (members.map fun member => member.node.value)

theorem decode_toMatch (candidate : Candidate Place) :
    candidate.toMatch.decode = .ok candidate.value := by
  cases candidate with
  | node visit => rfl
  | group members =>
      have decoded : (members.map Visit.node).mapM Node.decode =
          Except.ok (ε := QueryError) ((members.map Visit.node).map Place.value) :=
        List.mapM_pure
      rw [toMatch, Match.decode, decoded, List.map_map]
      rfl

theorem decode_toMatches (candidates : List (Candidate Place)) :
    (candidates.map toMatch).mapM Match.decode = .ok (candidates.map value) := by
  rw [List.mapM_map]
  simp only [Function.comp_def, decode_toMatch]
  exact List.mapM_pure

end Candidate

/-- The values that a query selects from a value. -/
def Json.selection (value : Json) (query : Query) (context : Context) :
    Except QueryError (List Json) :=
  (query.select context (Place.root value)).outcome

theorem Json.selection_eq (value : Json) (query : Query) (context : Context) :
    value.selection query context =
      (query.candidates context (Place.root value)).outcome.map (·.map Candidate.value) := by
  rw [selection, Query.select, Query.execute]
  simp only [Traced.outcome_bind, Traced.outcome_pure]
  cases (query.candidates context (Place.root value)).outcome with
  | error error => rfl
  | ok candidates => exact Candidate.decode_toMatches candidates

end JsonQuery
