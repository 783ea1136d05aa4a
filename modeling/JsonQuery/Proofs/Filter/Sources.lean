import JsonQuery.Proofs.Selection.Answering
import JsonQuery.Proofs.Source.Repetition

/-!
Filters over undecoded text. A filter goes from its node only by names and positions, and decodes
only what a reference leads to. There a span answers like the value that it decodes to, even where
the text repeats a name, so no filter can tell the two apart.
-/

namespace JsonQuery

namespace Span

theorem Holds.shows {span : Span} {tree : Json} (held : span.Holds tree) {place : Place}
    (same : place.value = tree.merged) : span.Shows place :=
  ⟨tree, held, same⟩

/-- Every span that is reached in a source that decodes has a value, and shows every place of
it. -/
theorem shows_of_reached {source : List UInt8} {value : Json}
    (decoded : Json.decode source = .ok value) :
    ∃ root, root? source = some root ∧
      ∀ span, Relation.ReflTransGen Node.Leads root span →
        ∃ found, Node.decode span = .ok found ∧
          ∀ place : Place, place.value = found → span.Shows place := by
  obtain ⟨text, tree, rfl, isDocument, _⟩ := Json.decode_eq_ok_iff.mp decoded
  obtain ⟨root, isRoot, held⟩ := exists_root_of_document isDocument
  refine ⟨root, isRoot, fun span reached => ?_⟩
  obtain ⟨inner, innerHeld⟩ := held.reached reached
  exact ⟨inner.merged, innerHeld.decode, fun place => innerHeld.shows⟩

end Span

namespace Expression

open Traced (Answers)

variable {span : Span} {place : Place} (context : Context) (expression : Expression)

/-- As a condition an expression holds for a span exactly if it does for the place, and it has an
answer there. -/
theorem evaluate_span (shows : span.Shows place) :
    Answers (expression.evaluate context span) ∧
      expression.evaluate context span = expression.evaluate context place := by
  have same := (similar_shows.evaluate shows context expression).eq
  rw [same]
  exact ⟨expression.answers_evaluate context place, rfl⟩

/-- As an operand it stands for the same. -/
theorem resolve_span (shows : span.Shows place) :
    Answers (expression.resolve context span) ∧
      expression.resolve context span = expression.resolve context place := by
  have same := (similar_shows.resolve shows context expression).eq
  rw [same]
  exact ⟨expression.answers_resolve context place, rfl⟩

end Expression

/-- Filters do not depend on how their node is held. In a source that decodes, every span that is
reached from the root has a value. Whatever functions are registered, every expression has an
answer for the span, as a condition and as an operand, and it is the one that it has for any place
of that value. -/
theorem filters_independent_of_source {source : List UInt8} {value : Json}
    (decoded : Json.decode source = .ok value) :
    ∃ root, Span.root? source = some root ∧
      ∀ span, Relation.ReflTransGen Node.Leads root span →
        ∃ found, Node.decode span = .ok found ∧
          ∀ (context : Context) (expression : Expression) (place : Place), place.value = found →
            (Traced.Answers (expression.evaluate context span) ∧
              expression.evaluate context span = expression.evaluate context place) ∧
            Traced.Answers (expression.resolve context span) ∧
              expression.resolve context span = expression.resolve context place := by
  obtain ⟨root, isRoot, shown⟩ := Span.shows_of_reached decoded
  refine ⟨root, isRoot, fun span reached => ?_⟩
  obtain ⟨found, isFound, shows⟩ := shown span reached
  refine ⟨found, isFound, fun context expression place same => ?_⟩
  exact ⟨expression.evaluate_span context (shows place same),
    expression.resolve_span context (shows place same)⟩

/-- The last member called `k`, whose name is written with an escape, and its last but one
element. -/
theorem filters_independent_of_source_repeated :
    let source := Utf8.encode ['[', '{', '"', 'k', '"', ':', '1', ',', '"', '\\', 'u', '0', '0',
      '6', 'b', '"', ':', '[', 't', 'r', 'u', 'e', ',', '2', ']', '}', ']']
    let found := Json.object [("k", .array [.bool true, .number (.integer 2)])]
    let context : Context := ⟨.builtIn, defaultMaxDepth⟩
    let condition := Expression.binary .and
      (.binary .equal (.call "LENGTH" [.reference [.key "k"]]) (.reference [.key "k", .index 1]))
      (.reference [.key "k", .index (-2)])
    ∃ root span : Span, Span.root? source = some root ∧ Node.element root 0 = some span ∧
      Node.decode span = .ok found ∧ (condition.evaluate context span).outcome = .ok true ∧
      condition.resolve context span = condition.resolve context (Place.root found) := by
  intro source found context condition
  have decoded : Json.decode source = .ok (.array [found]) := by cbv
  obtain ⟨root, isRoot, each⟩ := filters_independent_of_source decoded
  have same : Span.root? source = some ⟨0, source, 27⟩ := by cbv
  have element : Node.element (⟨0, source, 27⟩ : Span) 0 = some ⟨1, source.drop 1, 25⟩ := by cbv
  have isDecoded : Node.decode (⟨1, source.drop 1, 25⟩ : Span) = .ok found := by cbv
  rw [same, Option.some.injEq] at isRoot
  subst isRoot
  obtain ⟨value, isValue, alike⟩ := each _ (.single (.element element))
  have sameValue : found = value := Except.ok.inj (isDecoded.symm.trans isValue)
  obtain ⟨⟨_, evaluated⟩, _, resolved⟩ := alike context condition (Place.root found) sameValue
  have holds : (condition.evaluate context (Place.root found)).outcome = .ok true := by
    decide +kernel
  exact ⟨_, _, same, element, isDecoded, (congrArg Traced.outcome evaluated).trans holds, resolved⟩

end JsonQuery
