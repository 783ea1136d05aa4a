/-!
Chains of computations that may fail.
-/

namespace JsonQuery

/-- A chain of two computations succeeds exactly if both do. -/
theorem bind_eq_ok {ε α β : Type} {first : Except ε α} {next : α → Except ε β} {answer : β} :
    first >>= next = .ok answer ↔ ∃ found, first = .ok found ∧ next found = .ok answer := by
  cases first with
  | error defect => exact ⟨nofun, nofun⟩
  | ok found =>
      constructor
      · intro read
        exact ⟨found, rfl, read⟩
      · rintro ⟨_, same, read⟩
        cases same
        exact read

@[simp] theorem ok_bind {ε α β : Type} (found : α) (next : α → Except ε β) :
    (Except.ok found >>= next) = next found := rfl

theorem mapError_eq_ok {ε δ α : Type} {change : ε → δ} {outcome : Except ε α} {answer : α} :
    outcome.mapError change = .ok answer ↔ outcome = .ok answer := by
  cases outcome with
  | error defect => exact ⟨nofun, nofun⟩
  | ok found =>
      constructor <;> exact fun same => congrArg Except.ok (Except.ok.inj same)

/-- The answer or the error of a computation is of a given kind. -/
def Ends {ε α : Type} (answers : α → Prop) (errors : ε → Prop) : Except ε α → Prop
  | .ok answer => answers answer
  | .error error => errors error

namespace Ends

variable {ε δ α β : Type} {answers : α → Prop} {errors : ε → Prop} {outcome : Except ε α}

theorem imp {others : α → Prop} {defects : ε → Prop} (ends : Ends answers errors outcome)
    (sameAnswers : ∀ answer, answers answer → others answer)
    (sameErrors : ∀ error, errors error → defects error) : Ends others defects outcome := by
  cases outcome with
  | ok answer => exact sameAnswers answer ends
  | error error => exact sameErrors error ends

theorem bind {others : β → Prop} {next : α → Except ε β} (ends : Ends answers errors outcome)
    (later : ∀ answer, answers answer → Ends others errors (next answer)) :
    Ends others errors (outcome >>= next) := by
  cases outcome with
  | ok answer => exact later answer ends
  | error error => exact ends

theorem map {others : β → Prop} {change : α → β} (ends : Ends answers errors outcome)
    (changed : ∀ answer, answers answer → others (change answer)) :
    Ends others errors (outcome.map change) := by
  cases outcome with
  | ok answer => exact changed answer ends
  | error error => exact ends

theorem mapError {defects : δ → Prop} {change : ε → δ} (ends : Ends answers errors outcome)
    (changed : ∀ error, errors error → defects (change error)) :
    Ends answers defects (outcome.mapError change) := by
  cases outcome with
  | ok answer => exact ends
  | error error => exact changed error ends

theorem exists_ok (ends : Ends answers (fun _ => False) outcome) :
    ∃ answer, outcome = .ok answer ∧ answers answer := by
  cases outcome with
  | ok answer => exact ⟨answer, rfl, ends⟩
  | error error => exact ends.elim

/-- What every round of a loop preserves, the loop preserves. -/
theorem foldlM {items : List β} {step : α → β → Except ε α} {start : α} (first : answers start)
    (each : ∀ done, answers done → ∀ item ∈ items, Ends answers errors (step done item)) :
    Ends answers errors (items.foldlM step start) := by
  induction items generalizing start with
  | nil => exact first
  | cons item items induction =>
      rw [List.foldlM_cons]
      refine (each start first item List.mem_cons_self).bind fun done holds => ?_
      exact induction holds fun done holds item later =>
        each done holds item (List.mem_cons_of_mem _ later)

end Ends

end JsonQuery
