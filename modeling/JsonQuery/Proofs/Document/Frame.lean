import JsonQuery.Proofs.Document.Ways
import Mathlib

/-!
What a write leaves alone. It changes the containers on its way in one child each, and one of them
may gain the first of the objects that it creates. All that stands beside its way stays as it is.
-/

namespace JsonQuery.Json

/-! ## One container -/

/-- What has become of a container on the way of a write, once a child has been written at the
branch where the way leads on. -/
inductive Passed (child : Json) : Branch → Option Json → Json → Prop
  | element {elements : List Json} {index : Nat} (inside : index < elements.length) :
      Passed child (.element index) (some (.array elements)) (.array (elements.set index child))
  | member {before behind : List (String × Json)} {name : String} {old : Json}
      (first : name ∉ before.map Prod.fst) :
      Passed child (.member name) (some (.object (before ++ (name, old) :: behind)))
        (.object (before ++ (name, child) :: behind))
  | gained {members : List (String × Json)} {name : String}
      (missing : name ∉ members.map Prod.fst) :
      Passed child (.member name) (some (.object members)) (.object (members ++ [(name, child)]))
  | created {name : String} : Passed child (.member name) none (.object [(name, child)])

theorem putMember_first {before behind : List (String × Json)} {name : String} (old value : Json)
    (first : name ∉ before.map Prod.fst) :
    putMember name value (before ++ (name, old) :: behind) =
      before ++ (name, value) :: behind := by
  induction before with
  | nil => exact if_pos rfl
  | cons member before induction =>
      rcases member with ⟨other, value⟩
      rw [List.map_cons, List.mem_cons, not_or] at first
      rw [List.cons_append, putMember, if_neg (Ne.symm first.1), induction first.2,
        List.cons_append]

theorem passed_putMember (name : String) (child : Json) (members : List (String × Json)) :
    Passed child (.member name) (some (.object members))
      (.object (putMember name child members)) := by
  cases found : members.lookup name with
  | none =>
      have missing := lookup_eq_none.mp found
      rw [putMember_of_not_mem missing]
      exact .gained missing
  | some old =>
      rcases List.lookup_eq_some_iff.mp found with ⟨before, behind, rfl, others⟩
      have first := lookup_eq_none.mp (List.lookup_eq_none_iff.mpr others)
      rw [putMember_first old child first]
      exact .member first

namespace Passed

variable {child after : Json} {branch : Branch} {here : Option Json}

theorem exists_putMember {name : String} (passed : Passed child (.member name) here after) :
    ∃ members, after = .object (putMember name child members) ∧
      ∀ other, here.bind (·.child? (.member other)) = members.lookup other := by
  cases passed with
  | @member before behind name old first =>
      exact ⟨before ++ (name, old) :: behind, by rw [putMember_first old child first],
        fun _ => rfl⟩
  | @gained members name missing =>
      exact ⟨members, by rw [putMember_of_not_mem missing], fun _ => rfl⟩
  | created => exact ⟨[], rfl, fun _ => rfl⟩

theorem child?_self (passed : Passed child branch here after) :
    after.child? branch = some child := by
  cases branch with
  | element index =>
      cases passed with
      | element inside => exact List.getElem?_set_self inside
  | member name =>
      rcases passed.exists_putMember with ⟨members, rfl, _⟩
      rw [child?, lookup_putMember, if_pos rfl]

theorem child?_of_ne (passed : Passed child branch here after) {other : Branch}
    (different : branch ≠ other) : after.child? other = here.bind (·.child? other) := by
  cases branch with
  | element index =>
      cases passed with
      | element inside =>
          cases other with
          | member name => rfl
          | element second =>
              have unequal : index ≠ second := fun same => different (congrArg Branch.element same)
              exact List.getElem?_set_ne unequal
  | member name =>
      cases other with
      | member second =>
          have unequal : name ≠ second := fun same => different (congrArg Branch.member same)
          rcases passed.exists_putMember with ⟨members, rfl, same⟩
          rw [child?, lookup_putMember, if_neg unequal, same]
      | element position => cases passed <;> rfl

end Passed

theorem passed_writeAt {value : Json} {path : String} {segment : Segment}
    {segments : List Segment} {here : Option Json} {after : Json}
    (written : writeAt value path (segment :: segments) (here.getD (.object [])) =
      (.ok (), after)) :
    ∃ branch child, branch? here segment = some branch ∧
      writeAt value path segments ((here.bind (·.child? branch)).getD (.object [])) =
        (.ok (), child) ∧
      Passed child branch here after := by
  cases here with
  | none =>
      cases segment with
      | key name =>
          rw [Option.getD_none, writeAt] at written
          rcases Prod.mk.inj written with ⟨succeeded, rfl⟩
          exact ⟨.member name, _, rfl, Prod.ext succeeded rfl, .created⟩
      | index position => cases written
  | some tree =>
      rw [Option.getD_some] at written
      cases tree with
      | object members =>
          cases segment with
          | key name =>
              rw [writeAt] at written
              rcases Prod.mk.inj written with ⟨succeeded, rfl⟩
              exact ⟨.member name, _, rfl, Prod.ext succeeded rfl, passed_putMember name _ members⟩
          | index position => cases written
      | array elements =>
          rw [writeAt] at written
          cases named : elementIndex elements.length segment path with
          | error error =>
              rw [named] at written
              cases written
          | ok index =>
              have inside := elementIndex_lt named
              have element := List.getElem?_eq_getElem inside
              simp only [named, element] at written
              rcases Prod.mk.inj written with ⟨succeeded, rfl⟩
              refine ⟨.element index, _, ?_, ?_, .element inside⟩
              · rw [branch?_array elements segment path, named]
                rfl
              · rw [Option.bind_some, child?, element]
                exact Prod.ext succeeded rfl
      | null | bool | number | string => cases segment <;> cases written

/-! ## The whole way -/

/-- What a write leaves of what may stand somewhere, by the location where it leads from there. -/
inductive Written (value : Json) : List Branch → Option Json → Json → Prop
  | target (here : Option Json) : Written value [] here value
  | pass {branch : Branch} {location : List Branch} {here : Option Json} {child after : Json}
      (passed : Passed child branch here after)
      (written : Written value location (here.bind (·.child? branch)) child) :
      Written value (branch :: location) here after

theorem written_writeAt (value : Json) (path : String) (segments : List Segment) :
    ∀ {here : Option Json} {after : Json},
      writeAt value path segments (here.getD (.object [])) = (.ok (), after) →
        ∃ location, locate? here segments = some location ∧ Written value location here after := by
  induction segments with
  | nil =>
      intro here after written
      rw [writeAt] at written
      cases written
      exact ⟨[], rfl, .target here⟩
  | cons segment segments induction =>
      intro here after written
      rcases passed_writeAt written with ⟨branch, child, named, further, passed⟩
      rcases induction further with ⟨location, isLocation, below⟩
      refine ⟨branch :: location, ?_, .pass passed below⟩
      rw [locate?_cons named, isLocation, Option.map_some]

namespace Written

variable {value after : Json} {location : List Branch} {here : Option Json}

theorem at?_target (written : Written value location here after) :
    after.at? location = some value := by
  induction written with
  | target here => rfl
  | pass passed _ induction =>
      rw [at?_cons, passed.child?_self]
      exact induction

theorem passed (written : Written value location here after) :
    ∀ {upper lower : List Branch} {branch : Branch}, location = upper ++ branch :: lower →
      ∃ container child, after.at? upper = some container ∧
        Passed child branch (here.bind (·.at? upper)) container := by
  induction written with
  | target here => intro upper lower branch same; cases upper <;> cases same
  | @pass first location here child after passed _ induction =>
      intro upper lower branch same
      cases upper with
      | nil =>
          cases same
          refine ⟨after, child, rfl, ?_⟩
          rw [bind_at?_nil]
          exact passed
      | cons second upper =>
          cases same
          rcases induction rfl with ⟨container, inner, isContainer, innerPassed⟩
          refine ⟨container, inner, ?_, ?_⟩
          · rw [at?_cons, passed.child?_self]
            exact isContainer
          · rw [bind_at?_cons]
            exact innerPassed

theorem at?_of_apart (written : Written value location here after) :
    ∀ {other : List Branch}, ¬location <+: other → ¬other <+: location →
      after.at? other = here.bind (·.at? other) := by
  induction written with
  | target here =>
      intro other notAbove _
      exact absurd List.nil_prefix notAbove
  | @pass branch location here child after passed _ induction =>
      intro other notAbove notBelow
      cases other with
      | nil => exact absurd List.nil_prefix notBelow
      | cons second others =>
          rw [at?_cons, bind_at?_cons]
          by_cases same : branch = second
          · cases same
            rw [passed.child?_self]
            refine induction (fun above => notAbove ?_) (fun below => notBelow ?_)
            · exact List.cons_prefix_cons.mpr ⟨rfl, above⟩
            · exact List.cons_prefix_cons.mpr ⟨rfl, below⟩
          · rw [passed.child?_of_ne same]

end Written

/-- An object is there before and after, and it has more members after. -/
def Gains (before after : Option Json) : Prop :=
  ∃ members more, before = some (.object members) ∧ after = some (.object more) ∧
    members.length < more.length

theorem Passed.nothing_below {child after : Json} {branch : Branch} {here : Option Json}
    (passed : Passed child branch here after) (gains : Gains here (some after))
    (location : List Branch) : here.bind (·.at? (branch :: location)) = none := by
  rcases gains with ⟨members, more, rfl, isMore, longer⟩
  have missing : (some (object members)).bind (·.child? branch) = none := by
    cases passed with
    | member first =>
        cases isMore
        simp only [List.length_append, List.length_cons, Nat.lt_irrefl] at longer
    | gained missing => exact lookup_eq_none.mpr missing
  rw [bind_at?_cons, missing, Option.bind_none]

theorem Written.unique_gain {value after : Json} {location : List Branch} {here : Option Json}
    (written : Written value location here after) :
    ∀ {left right : List Branch}, left <+: location → left ≠ location →
      right <+: location → right ≠ location →
        Gains (here.bind (·.at? left)) (after.at? left) →
          Gains (here.bind (·.at? right)) (after.at? right) → left = right := by
  induction written with
  | target here =>
      intro left right leftAbove leftOther
      exact absurd (List.prefix_nil.mp leftAbove) leftOther
  | @pass branch location here child after passed _ induction =>
      intro left right leftAbove leftOther rightAbove rightOther leftGains rightGains
      -- Of two objects that gain, the upper one would have had nothing where the lower one is.
      have alone {others : List Branch} (gains : Gains here (some after))
          (othersGain : Gains (here.bind (·.at? (branch :: others)))
            (after.at? (branch :: others))) : False := by
        rcases othersGain with ⟨members, _, isObject, _⟩
        rw [passed.nothing_below gains] at isObject
        cases isObject
      cases left with
      | nil =>
          cases right with
          | nil => rfl
          | cons second right =>
              rcases List.cons_prefix_cons.mp rightAbove with ⟨rfl, _⟩
              rw [bind_at?_nil] at leftGains
              exact (alone leftGains rightGains).elim
      | cons first left =>
          rcases List.cons_prefix_cons.mp leftAbove with ⟨rfl, leftBelow⟩
          cases right with
          | nil =>
              rw [bind_at?_nil] at rightGains
              exact (alone rightGains leftGains).elim
          | cons second right =>
              rcases List.cons_prefix_cons.mp rightAbove with ⟨rfl, rightBelow⟩
              rw [at?_cons, passed.child?_self, bind_at?_cons] at leftGains rightGains
              have same : left = right := by
                refine induction leftBelow ?_ rightBelow ?_ leftGains rightGains
                · exact fun same => leftOther (congrArg (List.cons _) same)
                · exact fun same => rightOther (congrArg (List.cons _) same)
              rw [same]

end Json

/-- What a write that succeeds does to a tree. Its segments name a location, where the value
stands afterwards. Every array above it has changed in one element; every object above it keeps its
members in their order and has changed in one, which stands behind the others if it is new; and
what has been created is an object of one member. At most one object has gained a member. All that
is neither above the location nor below it stays as it is. -/
theorem set_frame {value : Json} {path : String} {segments : List Segment} {tree after : Json}
    (succeeded : Json.set value path segments tree = (.ok (), after)) :
    ∃ location, Json.locate? (some tree) segments = some location ∧
      after.at? location = some value ∧
      (∀ upper branch lower, location = upper ++ branch :: lower →
        ∃ container child, after.at? upper = some container ∧
          Json.Passed child branch (tree.at? upper) container) ∧
      (∀ left right, left <+: location → left ≠ location → right <+: location →
        right ≠ location → Json.Gains (tree.at? left) (after.at? left) →
          Json.Gains (tree.at? right) (after.at? right) → left = right) ∧
      ∀ other, ¬location <+: other → ¬other <+: location → after.at? other = tree.at? other := by
  have checked : Json.checkSet path segments tree = .ok () := by
    rw [← Json.set_outcome value, succeeded]
  rw [Json.set, checked] at succeeded
  have isWritten : Json.writeAt value path segments ((some tree).getD (.object [])) =
      (.ok (), after) := succeeded
  rcases Json.written_writeAt value path segments isWritten with ⟨location, isLocation, written⟩
  refine ⟨location, isLocation, written.at?_target, ?_, ?_, ?_⟩
  · intro upper branch lower same
    exact written.passed same
  · intro left right leftAbove leftOther rightAbove rightOther leftGains rightGains
    exact written.unique_gain leftAbove leftOther rightAbove rightOther leftGains rightGains
  · intro other notAbove notBelow
    exact written.at?_of_apart notAbove notBelow

theorem set_frame_created :
    let tree := Json.object
      [("a", .array [.null, .object [("k", .null)]]), ("b", .array [.null])]
    let segments := [Segment.key "a", .index (-1), .key "n", .key "m"]
    let after := Json.object
      [("a", .array [.null, .object [("k", .null), ("n", .object [("m", .bool true)])]]),
        ("b", .array [.null])]
    Json.set (.bool true) "/a[-1]/n/m" segments tree = (.ok (), after) ∧
      Json.locate? (some tree) segments =
        some [.member "a", .element 1, .member "n", .member "m"] ∧
      (∃ container child, after.at? [.member "a", .element 1, .member "n"] = some container ∧
        Json.Passed child (.member "m") none container) ∧
      after.at? [.member "a", .element 1, .member "k"] =
        tree.at? [.member "a", .element 1, .member "k"] := by
  intro tree segments after
  have succeeded : Json.set (.bool true) "/a[-1]/n/m" segments tree = (.ok (), after) := by cbv
  have located : Json.locate? (some tree) segments =
      some [.member "a", .element 1, .member "n", .member "m"] := by cbv
  rcases set_frame succeeded with ⟨location, isLocation, _, passed, _, apart⟩
  cases isLocation.symm.trans located
  refine ⟨succeeded, located, ?_, apart _ ?_ ?_⟩
  · exact passed [.member "a", .element 1, .member "n"] (.member "m") [] rfl
  · simp
  · simp

end JsonQuery
