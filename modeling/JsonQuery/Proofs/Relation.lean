import JsonQuery.Notice
import Mathlib.Data.List.Forall2

/-!
Relating two runs step by step. Options and lists are related if what they hold is; related
computations give the same notices and end alike.
-/

namespace JsonQuery

variable {α β γ δ : Type} {related : α → β → Prop} {result : γ → δ → Prop}

/-! ## Options and lists -/

theorem optionMap_rel {change : α → γ} {other : β → δ}
    (changed : ∀ left right, related left right → result (change left) (other right))
    {left : Option α} {right : Option β} (rel : Option.Rel related left right) :
    Option.Rel result (left.map change) (right.map other) := by
  cases rel with
  | none => exact .none
  | some rel => exact .some (changed _ _ rel)

theorem optionBind_rel {change : α → Option γ} {other : β → Option δ}
    (changed : ∀ left right, related left right → Option.Rel result (change left) (other right))
    {left : Option α} {right : Option β} (rel : Option.Rel related left right) :
    Option.Rel result (left.bind change) (right.bind other) := by
  cases rel with
  | none => exact .none
  | some rel => exact changed _ _ rel

theorem isSome_eq_of_rel {left : Option α} {right : Option β}
    (rel : Option.Rel related left right) : left.isSome = right.isSome := by
  cases rel <;> rfl

theorem option_rel_of_map_eq {change : α → γ} {other : β → γ} {left : Option α} {right : Option β}
    (same : left.map change = right.map other) :
    Option.Rel (fun left right => change left = other right) left right := by
  cases left with
  | none =>
      rw [Option.map_none, eq_comm, Option.map_eq_none_iff] at same
      rw [same]
      exact .none
  | some left =>
      rcases Option.map_eq_some_iff.mp same.symm with ⟨right, rfl, equal⟩
      exact .some equal.symm

theorem map_eq_iff_forall₂ {change : α → γ} {other : β → γ} {lefts : List α} {rights : List β} :
    lefts.map change = rights.map other ↔
      List.Forall₂ (fun left right => change left = other right) lefts rights := by
  rw [← List.forall₂_map_right_iff, ← List.forall₂_map_left_iff, List.forall₂_eq_eq_eq]

theorem head?_rel {lefts : List α} {rights : List β} (all : List.Forall₂ related lefts rights) :
    Option.Rel related lefts.head? rights.head? := by
  cases all with
  | nil => exact .none
  | cons first _ => exact .some first

theorem getLast?_rel {lefts : List α} {rights : List β}
    (all : List.Forall₂ related lefts rights) :
    Option.Rel related lefts.getLast? rights.getLast? := by
  rw [List.getLast?_eq_head?_reverse, List.getLast?_eq_head?_reverse]
  exact head?_rel (List.rel_reverse all)

theorem getElem?_rel {lefts : List α} {rights : List β}
    (all : List.Forall₂ related lefts rights) (position : Nat) :
    Option.Rel related lefts[position]? rights[position]? := by
  rw [← List.head?_drop, ← List.head?_drop]
  exact head?_rel (List.forall₂_drop position all)

theorem exists_of_mem_rel {lefts : List α} {rights : List β}
    (all : List.Forall₂ related lefts rights) {left : α} (member : left ∈ lefts) :
    ∃ right ∈ rights, related left right := by
  induction all with
  | nil => cases member
  | @cons first twin others twins same _ induction =>
      rcases List.mem_cons.mp member with rfl | later
      · exact ⟨twin, List.mem_cons_self, same⟩
      · rcases induction later with ⟨right, there, rel⟩
        exact ⟨right, List.mem_cons_of_mem twin there, rel⟩

theorem forall₂_mapIdx {after : α → γ → Prop} {change : Nat → β → γ} {lefts : List α}
    {rights : List β}
    (changed : ∀ position left right, lefts[position]? = some left →
      rights[position]? = some right → related left right → after left (change position right))
    (all : List.Forall₂ related lefts rights) :
    List.Forall₂ after lefts (rights.mapIdx change) := by
  rw [List.forall₂_iff_get] at all ⊢
  refine ⟨by rw [all.1, List.length_mapIdx], ?_⟩
  intro position inLefts inRights
  rw [List.length_mapIdx] at inRights
  simp only [List.get_eq_getElem, List.getElem_mapIdx]
  exact changed position _ _ (List.getElem?_eq_getElem inLefts) (List.getElem?_eq_getElem inRights)
    (all.2 position inLefts inRights)

theorem foldlM_rel {first : γ → α → Option γ} {second : δ → α → Option δ} (steps : List α)
    (step : ∀ left right item, result left right →
      Option.Rel result (first left item) (second right item)) :
    ∀ {left : γ} {right : δ}, result left right →
      Option.Rel result (steps.foldlM first left) (steps.foldlM second right) := by
  induction steps with
  | nil =>
      intro left right start
      exact .some start
  | cons item steps induction =>
      intro left right start
      exact optionBind_rel (fun _ _ same => induction same) (step left right item start)

/-! ## Computations that may fail -/

theorem mapM_eq_ok_of_rel {ε : Type} {first : α → Except ε γ} {second : β → Except ε γ}
    (agree : ∀ left right, related left right →
      ∃ value, first left = .ok value ∧ second right = .ok value)
    {lefts : List α} {rights : List β} (all : List.Forall₂ related lefts rights) :
    ∃ values, lefts.mapM first = .ok values ∧ rights.mapM second = .ok values := by
  induction all with
  | nil => exact ⟨[], rfl, rfl⟩
  | cons same others induction =>
      rcases agree _ _ same with ⟨value, leftValue, rightValue⟩
      rcases induction with ⟨values, leftValues, rightValues⟩
      refine ⟨value :: values, ?_, ?_⟩
      · rw [List.mapM_cons, leftValue, leftValues]
        rfl
      · rw [List.mapM_cons, rightValue, rightValues]
        rfl

/-! ## Traced computations -/

/-- Both computations give the same notices. Both have answers, and related ones, or both go too
deep. -/
inductive Agree (related : α → β → Prop) : Traced α → Traced β → Prop
  | answer {notices : List Notice} {left : α} {right : β} (same : related left right) :
      Agree related ⟨notices, .ok left⟩ ⟨notices, .ok right⟩
  | tooDeep {notices : List Notice} {limit : Nat} :
      Agree related ⟨notices, .error (.tooDeep limit)⟩ ⟨notices, .error (.tooDeep limit)⟩

namespace Agree

theorem pure {left : α} {right : β} (same : related left right) :
    Agree related (Pure.pure left : Traced α) (Pure.pure right : Traced β) :=
  .answer same

theorem bind {first : Traced α} {second : Traced β} {after : α → Traced γ}
    {other : β → Traced δ} (agree : Agree related first second)
    (next : ∀ left right, related left right → Agree result (after left) (other right)) :
    Agree result (first >>= after) (second >>= other) := by
  cases agree with
  | @answer notices left right same =>
      have later := next left right same
      show Agree result ⟨notices ++ (after left).notices, (after left).outcome⟩
        ⟨notices ++ (other right).notices, (other right).outcome⟩
      generalize after left = first, other right = second at later
      cases later with
      | answer same => exact .answer same
      | tooDeep => exact .tooDeep
  | tooDeep => exact .tooDeep

theorem foldlM {step : γ → α → Traced γ} {other : δ → β → Traced δ}
    (agree : ∀ left right item twin, result left right → related item twin →
      Agree result (step left item) (other right twin))
    {items : List α} {twins : List β} (all : List.Forall₂ related items twins) :
    ∀ {left : γ} {right : δ}, result left right →
      Agree result (items.foldlM step left) (twins.foldlM other right) := by
  induction all with
  | nil =>
      intro left right start
      exact .pure start
  | cons first others induction =>
      intro left right start
      simp only [List.foldlM_cons]
      exact (agree left right _ _ start first).bind fun _ _ same => induction same

theorem eq {first second : Traced α} (agree : Agree Eq first second) : first = second := by
  cases agree with
  | answer same => rw [same]
  | tooDeep => rfl

theorem decodes {first : Traced α} {second : Traced β} (agree : Agree related first second)
    (detail : String) : first.outcome ≠ .error (.undecodable detail) := by
  cases agree <;> nofun

end Agree

end JsonQuery
