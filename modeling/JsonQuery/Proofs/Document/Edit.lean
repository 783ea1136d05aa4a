import JsonQuery.Proofs.Document.Answers
import JsonQuery.Proofs.Json.Merging
import JsonQuery.Proofs.Outcome

/-!
Mutations that fail. Writing creates objects on its way, but its dry walk foresees every failure,
so a way that is refused is refused before anything is created. Deleting creates nothing, and puts
back what it finds.
-/

namespace JsonQuery

namespace Json

/-! ## The dry walk -/

theorem elementIndex_eq_ok {length index : Nat} {segment : Segment} {path : String} :
    elementIndex length segment path = .ok index ↔
      ∃ position, elementPosition segment = .ok position ∧
        resolveIndex? position length = some index := by
  rw [elementIndex, bind_eq_ok]
  refine exists_congr fun position => and_congr_right fun _ => ?_
  cases resolveIndex? position length <;> simp

theorem elementIndex_lt {length index : Nat} {segment : Segment} {path : String}
    (named : elementIndex length segment path = .ok index) : index < length := by
  rcases elementIndex_eq_ok.mp named with ⟨position, _, resolved⟩
  exact (resolveIndex?_eq_some_iff.mp resolved).1

def checkFrom (path : String) (segments : List Segment) (current : Option Json) :
    Except DocumentError Unit := do
  let _ ← segments.foldlM (checkStep path) current
  .ok ()

theorem checkSet_eq_checkFrom (path : String) (segments : List Segment) (tree : Json) :
    checkSet path segments tree = checkFrom path segments (some tree) := rfl

theorem checkFrom_cons (path : String) (segment : Segment) (segments : List Segment)
    (current : Option Json) :
    checkFrom path (segment :: segments) current =
      checkStep path current segment >>= checkFrom path segments := by
  rw [checkFrom, List.foldlM_cons]
  cases checkStep path current segment <;> rfl

/-- The dry walk goes through an object that the write would create as through an empty one. -/
theorem checkFrom_none (path : String) (segments : List Segment) :
    checkFrom path segments none = checkFrom path segments (some (.object [])) := by
  cases segments with
  | nil => rfl
  | cons segment segments => cases segment <;> rfl

/-! ## Writing -/

theorem writeAt_outcome (value : Json) (path : String) (segments : List Segment) :
    ∀ tree, (writeAt value path segments tree).1 = checkSet path segments tree := by
  induction segments with
  | nil =>
      intro tree
      rw [writeAt]
      rfl
  | cons segment segments induction =>
      intro tree
      rw [checkSet_eq_checkFrom, checkFrom_cons]
      cases tree with
      | object members =>
          cases segment with
          | key name =>
              rw [writeAt, induction, checkSet_eq_checkFrom, checkStep, ok_bind]
              cases members.lookup name with
              | none => exact (checkFrom_none path segments).symm
              | some member => rfl
          | index position =>
              rw [writeAt]
              rfl
      | array elements =>
          simp only [writeAt, checkStep]
          cases named : elementIndex elements.length segment path with
          | error error => rfl
          | ok index =>
              have element := List.getElem?_eq_getElem (elementIndex_lt named)
              simp only [element, induction, checkSet_eq_checkFrom, ok_bind]
      | null | bool | number | string => cases segment <;> rfl

theorem set_failed {value : Json} {path : String} {segments : List Segment} {tree : Json}
    {error : DocumentError} (failed : (set value path segments tree).1 = .error error) :
    (set value path segments tree).2 = tree := by
  have outcome := writeAt_outcome value path segments tree
  unfold set at failed ⊢
  cases checked : checkSet path segments tree with
  | error refusal => rfl
  | ok _ =>
      rw [checked] at failed outcome
      rw [outcome] at failed
      cases failed

theorem set_outcome (value : Json) (path : String) (segments : List Segment) (tree : Json) :
    (set value path segments tree).1 = checkSet path segments tree := by
  have outcome := writeAt_outcome value path segments tree
  unfold set
  cases checked : checkSet path segments tree with
  | error error => rfl
  | ok _ =>
      rw [checked] at outcome
      exact outcome

theorem set_of_ok {value : Json} {path : String} {segments : List Segment} {tree : Json}
    (succeeded : (set value path segments tree).1 = .ok ()) :
    set value path segments tree = writeAt value path segments tree := by
  rw [set_outcome] at succeeded
  rw [set, succeeded]

/-! ## Deleting -/

theorem putMember_lookup {name : String} {member : Json} {members : List (String × Json)}
    (found : members.lookup name = some member) : putMember name member members = members := by
  induction members with
  | nil => cases found
  | cons first others induction =>
      rw [lookup_member_cons] at found
      rw [putMember]
      split at found
      next equal =>
        rw [if_pos equal, ← Option.some.inj found]
      next different =>
        rw [if_neg different, induction found]

theorem delete_failed {path : String} (segments : List Segment) (tree : Json)
    {error : DocumentError} (failed : (delete path segments tree).1 = .error error) :
    (delete path segments tree).2 = tree := by
  fun_induction delete path segments tree with
  | case1 | case3 | case5 | case6 | case9 | case10 => rfl
  | case2 | case7 => cases failed
  | case4 name segments members notLast member found outcome changed below induction =>
      rw [below] at induction
      have same : changed = member := induction failed
      rw [same]
      exact congrArg object (putMember_lookup found)
  | case8 segment elements index named next others element found outcome changed below induction =>
      have same := induction failed
      rcases List.getElem?_eq_some_iff.mp found with ⟨inside, there⟩
      dsimp only
      rw [same, ← there, List.set_getElem_self]

end Json

/-! ## Documents -/

namespace Document

theorem edit_failed {change : List Segment → Json → Except DocumentError Unit × Json}
    (keeps : ∀ segments tree error, (change segments tree).1 = .error error →
      (change segments tree).2 = tree)
    {document : Document} {path : String} {session : Session} {error : DocumentError}
    (failed : ((document.edit path change).run session).1.1 = .error error) :
    ((document.edit path change).run session).1.2.value = document.value := by
  rw [(document.edit_answer path session change).1] at failed ⊢
  unfold editAnswer at failed ⊢
  split
  next => rfl
  next writable =>
    rw [if_neg writable] at failed
    cases way : session.settings.way path with
    | error refusal => rfl
    | ok segments =>
        rw [way] at failed
        cases tree : document.value with
        | error defect => exact tree
        | ok value =>
            rw [tree] at failed
            exact congrArg Except.ok (keeps segments value error failed)

end Document

/-- A mutation that fails changes nothing. In particular a write fails exactly where its dry walk
does, with the same error, and then no object on its way has been created. -/
theorem failed_mutation_keeps_value :
    (∀ (document : Document) (session : Session) (path : String) (value : Json)
      (error : DocumentError),
      ((document.set path value).run session).1.1 = .error error →
        ((document.set path value).run session).1.2.value = document.value) ∧
    (∀ (document : Document) (session : Session) (path : String) (error : DocumentError),
      ((document.delete path).run session).1.1 = .error error →
        ((document.delete path).run session).1.2.value = document.value) ∧
    ∀ (value : Json) (path : String) (segments : List Segment) (tree : Json),
      (Json.set value path segments tree).1 = Json.checkSet path segments tree ∧
        ∀ error, Json.checkSet path segments tree = .error error →
          (Json.set value path segments tree).2 = tree := by
  refine ⟨?_, ?_, ?_⟩
  · intro document session path value error failed
    exact Document.edit_failed (fun _ _ _ failed => Json.set_failed failed) failed
  · intro document session path error failed
    exact Document.edit_failed (fun segments tree _ => Json.delete_failed segments tree) failed
  · intro value path segments tree
    refine ⟨Json.set_outcome value path segments tree, ?_⟩
    intro error refused
    apply Json.set_failed
    rw [Json.set_outcome, refused]

theorem failed_mutation_keeps_value_missing :
    let document := Document.ofValue (.object [])
    let session := Session.start .standard
    let way := [Segment.key "a", .key "b", .index 0]
    ((document.set "/a/b[0]" .null).run session).1.2.value = document.value ∧
      ((document.delete "/a/b").run session).1.2.value = document.value ∧
      (Json.set .null "/a/b[0]" way (.object [])).2 = .object [] := by
  intro document session way
  have facts := failed_mutation_keeps_value
  refine ⟨?_, ?_, ?_⟩
  · exact facts.1 document session "/a/b[0]" .null (.typeMismatch .array .object)
      (by decide +kernel)
  · exact facts.2.1 document session "/a/b" (.notFound "/a/b") (by decide +kernel)
  · exact (facts.2.2 .null "/a/b[0]" way (.object [])).2 (.typeMismatch .array .object) rfl

end JsonQuery
