import JsonQuery.Proofs.Json.Reading

/-!
Locations in a tree: the names and positions that lead from the root to a value inside. A value can
be put at a location, which leaves all that stands beside it; and what a text spells has no more
positions than the text has characters.
-/

namespace JsonQuery.Json

inductive Branch where
  | member (name : String)
  | element (position : Nat)

def child? : Json → Branch → Option Json
  | .object members, .member name => members.lookup name
  | .array elements, .element position => elements[position]?
  | _, _ => none

def at? (tree : Json) (location : List Branch) : Option Json :=
  location.foldlM child? tree

theorem at?_cons (tree : Json) (branch : Branch) (location : List Branch) :
    tree.at? (branch :: location) = (tree.child? branch).bind fun child => child.at? location :=
  List.foldlM_cons

theorem at?_append (tree : Json) (location below : List Branch) :
    tree.at? (location ++ below) = (tree.at? location).bind fun found => found.at? below :=
  List.foldlM_append

def changeMember (name : String) (change : Json → Json) (members : List (String × Json)) :
    List (String × Json) :=
  members.map fun member => if member.1 = name then (name, change member.2) else member

/-- The tree with a value put at a location. A location that it does not have changes nothing. -/
def replaceAt : Json → List Branch → Json → Json
  | _, [], value => value
  | .object members, .member name :: location, value =>
    .object (changeMember name (fun child => child.replaceAt location value) members)
  | .array elements, .element position :: location, value =>
    .array (elements.modify position fun child => child.replaceAt location value)
  | tree, _, _ => tree

/-! ## Replacing -/

theorem lookup_changeMember (name other : String) (change : Json → Json)
    (members : List (String × Json)) :
    (changeMember other change members).lookup name =
      if other = name then (members.lookup name).map change else members.lookup name := by
  induction members with
  | nil => exact (ite_self none).symm
  | cons member members induction =>
      rcases member with ⟨first, value⟩
      rw [changeMember, List.map_cons, ← changeMember, lookup_member_cons]
      by_cases here : first = other
      · rw [if_pos here, lookup_member_cons, induction, here]
        split <;> rfl
      · rw [if_neg here, lookup_member_cons, induction]
        by_cases found : first = name
        · rw [if_pos found, if_pos found, if_neg fun same => here (found.trans same.symm)]
        · rw [if_neg found, if_neg found]

theorem child?_replaceAt (tree : Json) (branch : Branch) (location : List Branch) (value : Json) :
    (tree.replaceAt (branch :: location) value).child? branch =
      (tree.child? branch).map fun child => child.replaceAt location value := by
  cases branch with
  | member name =>
      cases tree with
      | object members => rw [replaceAt, child?, lookup_changeMember, if_pos rfl, child?]
      | null | bool | number | string | array => rfl
  | element position =>
      cases tree with
      | array elements => exact List.getElem?_modify_eq _ position elements
      | null | bool | number | string | object => rfl

theorem child?_replaceAt_of_ne (tree : Json) {branch other : Branch} (different : branch ≠ other)
    (location : List Branch) (value : Json) :
    (tree.replaceAt (branch :: location) value).child? other = tree.child? other := by
  cases branch with
  | member name =>
      cases tree with
      | object members =>
          cases other with
          | member second =>
              have unequal : name ≠ second := fun same => different (congrArg Branch.member same)
              rw [replaceAt, child?, lookup_changeMember, if_neg unequal, child?]
          | element position => rfl
      | null | bool | number | string | array => rfl
  | element position =>
      cases tree with
      | array elements =>
          cases other with
          | member name => rfl
          | element second =>
              have unequal : position ≠ second :=
                fun same => different (congrArg Branch.element same)
              exact List.getElem?_modify_ne _ elements unequal
      | null | bool | number | string | object => rfl

theorem at?_replaceAt (value : Json) (location : List Branch) : ∀ {tree found : Json},
    tree.at? location = some found → (tree.replaceAt location value).at? location = some value := by
  induction location with
  | nil =>
      intro tree found _
      rfl
  | cons branch location induction =>
      intro tree found leads
      rw [at?_cons, Option.bind_eq_some_iff] at leads
      rcases leads with ⟨child, there, below⟩
      rw [at?_cons, child?_replaceAt, there]
      exact induction below

/-- All that stands neither above a location nor below it stays as it is. -/
theorem at?_replaceAt_of_apart (value : Json) (location : List Branch) :
    ∀ {other : List Branch}, ¬location <+: other → ¬other <+: location →
      ∀ tree : Json, (tree.replaceAt location value).at? other = tree.at? other := by
  induction location with
  | nil =>
      intro other notAbove _
      exact absurd List.nil_prefix notAbove
  | cons branch location induction =>
      intro other notAbove notBelow tree
      cases other with
      | nil => exact absurd List.nil_prefix notBelow
      | cons second others =>
          rw [at?_cons, at?_cons]
          by_cases same : branch = second
          · cases same
            rw [child?_replaceAt, Option.bind_map]
            congr
            funext child
            refine induction (fun above => notAbove ?_) (fun below => notBelow ?_) child
            · exact List.cons_prefix_cons.mpr ⟨rfl, above⟩
            · exact List.cons_prefix_cons.mpr ⟨rfl, below⟩
          · rw [child?_replaceAt_of_ne tree same]

theorem putMember_eq_changeMember {name : String} {old : Json} {members : List (String × Json)}
    (nodup : (members.map Prod.fst).Nodup) (found : members.lookup name = some old)
    (change : Json → Json) :
    putMember name (change old) members = changeMember name change members := by
  induction members with
  | nil => cases found
  | cons member members induction =>
      rcases member with ⟨first, value⟩
      rw [List.map_cons, List.nodup_cons] at nodup
      rw [lookup_member_cons] at found
      rw [putMember, changeMember, List.map_cons, ← changeMember]
      split
      next here =>
        rw [if_pos here, Option.some.injEq] at found
        -- The name does not come again, so the change leaves the members behind it alone.
        have untouched : changeMember name change members = members := by
          refine (List.map_congr_left fun other there => if_neg fun same => ?_).trans
            (List.map_id' members)
          exact nodup.1 (List.mem_map.mpr ⟨other, there, same.trans here.symm⟩)
        rw [untouched, here, found]
      next different =>
        rw [if_neg different] at found
        rw [induction nodup.2 found]

theorem Unrepeated.child {tree child : Json} {branch : Branch} (unrepeated : tree.Unrepeated)
    (leads : tree.child? branch = some child) : child.Unrepeated := by
  cases tree with
  | object members =>
      cases branch with
      | member name => exact unrepeated.2.of_mem (mem_of_lookup leads)
      | element position => cases leads
  | array elements =>
      cases branch with
      | member name => cases leads
      | element position => exact UnrepeatedElements.of_mem unrepeated (List.mem_of_getElem? leads)
  | null | bool | number | string => cases leads

theorem Unrepeated.at? (location : List Branch) : ∀ {tree found : Json}, tree.Unrepeated →
    tree.at? location = some found → found.Unrepeated := by
  induction location with
  | nil =>
      intro tree found unrepeated leads
      cases leads
      exact unrepeated
  | cons branch location induction =>
      intro tree found unrepeated leads
      rw [at?_cons, Option.bind_eq_some_iff] at leads
      obtain ⟨child, isChild, below⟩ := leads
      exact induction (unrepeated.child isChild) below

/-! ## Texts -/

theorem Listing.exists_text {α : Type} {spells : List Char → α → Prop} {text : List Char}
    {values : List α} (listed : Listing spells text values) {value : α} (there : value ∈ values) :
    ∃ part, spells part value ∧ part.length ≤ text.length := by
  induction listed with
  | last blanksBefore spelled blanksAfter =>
      cases List.mem_singleton.mp there
      refine ⟨_, spelled, ?_⟩
      simp only [List.length_append]
      omega
  | more blanksBefore spelled blanksAfter others induction =>
      rcases List.mem_cons.mp there with rfl | later
      · refine ⟨_, spelled, ?_⟩
        simp only [List.length_append]
        omega
      · rcases induction later with ⟨part, isPart, short⟩
        refine ⟨part, isPart, ?_⟩
        simp only [List.length_append, List.length_cons]
        omega

theorem Inside.exists_text {α : Type} {spells : List Char → α → Prop} {text : List Char}
    {values : List α} (inside : Inside spells text values) {value : α} (there : value ∈ values) :
    ∃ part, spells part value ∧ part.length ≤ text.length := by
  cases inside with
  | empty => cases there
  | items listed => exact listed.exists_text there

theorem Inside.length_le {α : Type} {spells : List Char → α → Prop}
    (begins : ∀ text value, spells text value → Begins text) {text : List Char} {values : List α}
    (inside : Inside spells text values) : values.length ≤ text.length := by
  cases inside with
  | empty => exact Nat.zero_le _
  | items listed => exact listed.length_le begins

theorem Spells.child {levels : Nat} {text : List Char} {tree child : Json} {branch : Branch}
    (spelled : Spells levels text tree) (leads : tree.merged.child? branch = some child) :
    ∃ part inner, Spells levels part inner ∧ inner.merged = child ∧ part.length ≤ text.length ∧
      ∀ position, branch = .element position → position < text.length := by
  cases tree with
  | array elements =>
      rw [merged, mergedElements_eq_map] at leads
      cases branch with
      | member name => cases leads
      | element position =>
          rw [child?, List.getElem?_map, Option.map_eq_some_iff] at leads
          rcases leads with ⟨inner, there, rfl⟩
          cases spelled.composite rfl with
          | array inside =>
              rcases inside.exists_text (List.mem_of_getElem? there) with ⟨part, isPart, short⟩
              have fewer := inside.length_le (Spells.begins levels)
              have before := (List.getElem?_eq_some_iff.mp there).1
              refine ⟨part, inner, isPart, rfl, ?_, ?_⟩
              · simp only [List.length_cons, List.length_append]
                omega
              · intro other same
                cases same
                simp only [List.length_cons, List.length_append]
                omega
  | object members =>
      rw [merged, mergedMembers_eq_map] at leads
      cases branch with
      | element position => cases leads
      | member name =>
          rw [child?, lookup_mergeMembers, lastMember?_map, Option.map_eq_some_iff] at leads
          rcases leads with ⟨inner, last, rfl⟩
          cases spelled.composite rfl with
          | object inside =>
              rcases inside.exists_text (mem_of_lastMember? last) with ⟨part, isMember, short⟩
              cases isMember with
              | intro named blanksBefore blanksAfter isPart =>
                  refine ⟨_, inner, isPart, rfl, ?_, nofun⟩
                  simp only [List.length_cons, List.length_append] at short ⊢
                  omega
  | null | bool | number | string => cases leads

theorem Spells.position_lt {levels : Nat} (location : List Branch) : ∀ {text : List Char}
    {tree found : Json}, Spells levels text tree → tree.merged.at? location = some found →
      ∀ position, .element position ∈ location → position < text.length := by
  induction location with
  | nil => nofun
  | cons branch location induction =>
      intro text tree found spelled leads position there
      rw [at?_cons, Option.bind_eq_some_iff] at leads
      rcases leads with ⟨child, isChild, below⟩
      rcases spelled.child isChild with ⟨part, inner, isPart, rfl, short, before⟩
      rcases List.mem_cons.mp there with here | later
      · exact before position here.symm
      · exact Nat.lt_of_lt_of_le (induction isPart below position later) short

/-- The positions on the way to a value in a decoded tree are smaller than the source is long. -/
theorem position_lt_of_decode {source : List UInt8} {tree found : Json} {location : List Branch}
    (decoded : decode source = .ok tree) (leads : tree.at? location = some found) :
    ∀ position, .element position ∈ location → position < source.length := by
  intro position there
  rcases decode_eq_ok_iff.mp decoded with ⟨text, written, rfl, ⟨_, spelled, _⟩, rfl⟩
  have before := spelled.position_lt location leads position there
  refine Nat.lt_of_lt_of_le before (Nat.le_trans ?_ (Utf8.length_le_length_encode _))
  simp only [List.length_append]
  omega

end JsonQuery.Json
