import JsonQuery.Json.Basic
import Mathlib.Data.List.Induction

/-!
Repeated names. A tree as it is written may repeat the names of an object's members; merging
leaves each name once. A look-up in a merged object finds the last member of that name, and a tree
that repeats no name is left as it is.
-/

namespace JsonQuery.Json

/-! ## Members of one object -/

theorem mem_of_lookup {members : List (String × α)} {name : String} {value : α}
    (found : members.lookup name = some value) : (name, value) ∈ members := by
  rcases List.lookup_eq_some_iff.mp found with ⟨before, after, rfl, _⟩
  exact List.mem_append_right before List.mem_cons_self

theorem lookup_eq_none {members : List (String × α)} {name : String} :
    members.lookup name = none ↔ name ∉ members.map Prod.fst := by
  simp only [List.lookup_eq_none_iff, List.mem_map, bne_iff_ne, not_exists, not_and]
  exact forall₂_congr fun _ _ => ne_comm

/-- The last of the members of this name. -/
def lastMember? (name : String) (members : List (String × α)) : Option α :=
  ((members.filter fun member => member.1 = name).getLast?).map Prod.snd

theorem lastMember?_append (name : String) (members : List (String × α)) (other : String)
    (value : α) :
    lastMember? name (members ++ [(other, value)]) =
      if other = name then some value else lastMember? name members := by
  by_cases equal : other = name <;> simp [lastMember?, equal]

theorem lastMember?_map (name : String) (members : List (String × α)) (change : α → β) :
    lastMember? name (members.map fun member => (member.1, change member.2)) =
      (lastMember? name members).map change := by
  simp [lastMember?, List.filter_map, List.getLast?_map, Function.comp_def]

/-- The last member of a name is one of the members. -/
theorem mem_of_lastMember? {name : String} {members : List (String × α)} {value : α}
    (last : lastMember? name members = some value) : (name, value) ∈ members := by
  rcases Option.map_eq_some_iff.mp last with ⟨⟨other, found⟩, isLast, rfl⟩
  rcases List.mem_filter.mp (List.mem_of_getLast? isLast) with ⟨there, named⟩
  rw [← of_decide_eq_true named]
  exact there

theorem lookup_member_cons (name other : String) (value : α) (members : List (String × α)) :
    ((other, value) :: members).lookup name =
      if other = name then some value else members.lookup name := by
  by_cases equal : other = name
  · rw [if_pos equal, equal, List.lookup_cons_self]
  · rw [if_neg equal, List.lookup_cons, beq_false_of_ne (Ne.symm equal)]

theorem lookup_putMember (name other : String) (value : Json) (members : List (String × Json)) :
    (putMember other value members).lookup name =
      if other = name then some value else members.lookup name := by
  induction members with
  | nil => exact lookup_member_cons name other value []
  | cons member members induction =>
      rcases member with ⟨first, old⟩
      rw [putMember]
      by_cases here : first = other
      · rw [if_pos here, lookup_member_cons, lookup_member_cons, here]
        split <;> rfl
      · rw [if_neg here, lookup_member_cons, lookup_member_cons, induction]
        by_cases found : first = name
        · rw [if_pos found, if_pos found, if_neg fun same => here (found.trans same.symm)]
        · rw [if_neg found, if_neg found]

theorem mergeMembers_append (members : List (String × Json)) (name : String) (value : Json) :
    mergeMembers (members ++ [(name, value)]) = putMember name value (mergeMembers members) := by
  simp [mergeMembers]

/-- Of several members of one name the last one is found after merging. -/
theorem lookup_mergeMembers (name : String) (members : List (String × Json)) :
    (mergeMembers members).lookup name = lastMember? name members := by
  induction members using List.reverseRecOn with
  | nil => rfl
  | append_singleton members member induction =>
      rw [mergeMembers_append, lookup_putMember, lastMember?_append, induction]

theorem putMember_of_not_mem {name : String} {value : Json} {members : List (String × Json)}
    (fresh : name ∉ members.map Prod.fst) :
    putMember name value members = members ++ [(name, value)] := by
  induction members with
  | nil => rfl
  | cons member members induction =>
      rcases member with ⟨first, old⟩
      rw [List.map_cons, List.mem_cons, not_or] at fresh
      rw [putMember, if_neg (Ne.symm fresh.1), induction fresh.2, List.cons_append]

theorem mergeMembers_of_nodup {members : List (String × Json)}
    (nodup : (members.map Prod.fst).Nodup) : mergeMembers members = members := by
  induction members using List.reverseRecOn with
  | nil => rfl
  | append_singleton members member induction =>
      rw [List.map_append, List.nodup_append] at nodup
      rw [mergeMembers_append, induction nodup.1]
      apply putMember_of_not_mem
      intro repeated
      exact nodup.2.2 _ repeated _ (List.mem_singleton.mpr rfl) rfl

/-- Where no name is repeated, the first member of a name is the last one. -/
theorem lookup_of_nodup {members : List (String × α)} (nodup : (members.map Prod.fst).Nodup)
    (name : String) : members.lookup name = lastMember? name members := by
  induction members with
  | nil => rfl
  | cons member members induction =>
      rw [List.map_cons, List.nodup_cons] at nodup
      rw [lookup_member_cons, induction nodup.2]
      split
      next equal =>
        have nothing : members.filter (fun other => other.1 = name) = [] := by
          rw [List.filter_eq_nil_iff]
          intro other there sameName
          rw [decide_eq_true_iff] at sameName
          exact nodup.1 (List.mem_map.mpr ⟨other, there, by rw [sameName, equal]⟩)
        simp [lastMember?, equal, nothing]
      next different => simp [lastMember?, different]

/-! ## Whole trees -/

mutual

/-- A tree with the repeated names of every object merged. -/
def merged : Json → Json
  | .array elements => .array (mergedElements elements)
  | .object members => .object (mergeMembers (mergedMembers members))
  | scalar => scalar

def mergedElements : List Json → List Json
  | [] => []
  | element :: elements => merged element :: mergedElements elements

def mergedMembers : List (String × Json) → List (String × Json)
  | [] => []
  | (name, value) :: members => (name, merged value) :: mergedMembers members

end

theorem mergedElements_eq_map (elements : List Json) :
    mergedElements elements = elements.map merged := by
  induction elements with
  | nil => rfl
  | cons element elements induction => rw [mergedElements, induction, List.map_cons]

theorem mergedMembers_eq_map (members : List (String × Json)) :
    mergedMembers members = members.map fun member => (member.1, member.2.merged) := by
  induction members with
  | nil => rfl
  | cons member members induction => rw [mergedMembers, induction, List.map_cons]

@[simp] theorem kind_merged (tree : Json) : tree.merged.kind = tree.kind := by
  cases tree <;> simp [merged, kind]

mutual

/-- No object in the tree has two members of one name. -/
def Unrepeated : Json → Prop
  | .array elements => UnrepeatedElements elements
  | .object members => (members.map Prod.fst).Nodup ∧ UnrepeatedMembers members
  | _ => True

def UnrepeatedElements : List Json → Prop
  | [] => True
  | element :: elements => Unrepeated element ∧ UnrepeatedElements elements

def UnrepeatedMembers : List (String × Json) → Prop
  | [] => True
  | (_, value) :: members => Unrepeated value ∧ UnrepeatedMembers members

end

theorem UnrepeatedElements.of_mem {elements : List Json} (unrepeated : UnrepeatedElements elements)
    {element : Json} (member : element ∈ elements) : element.Unrepeated := by
  induction elements with
  | nil => cases member
  | cons first others induction =>
      rcases List.mem_cons.mp member with rfl | later
      · exact unrepeated.1
      · exact induction unrepeated.2 later

theorem UnrepeatedMembers.of_mem {members : List (String × Json)}
    (unrepeated : UnrepeatedMembers members) {found : String × Json} (member : found ∈ members) :
    found.2.Unrepeated := by
  induction members with
  | nil => cases member
  | cons first others induction =>
      rcases List.mem_cons.mp member with rfl | later
      · exact unrepeated.1
      · exact induction unrepeated.2 later

mutual

/-- Merging has nothing to do in a tree that repeats no name. -/
theorem merged_eq_self : ∀ (tree : Json), tree.Unrepeated → tree.merged = tree
  | .array elements, unrepeated => by
      rw [merged, mergedElements_eq_self elements unrepeated]
  | .object members, unrepeated => by
      rw [merged, mergedMembers_eq_self members unrepeated.2, mergeMembers_of_nodup unrepeated.1]
  | .null, _ | .bool _, _ | .number _, _ | .string _, _ => rfl

theorem mergedElements_eq_self : ∀ (elements : List Json),
    UnrepeatedElements elements → mergedElements elements = elements
  | [], _ => rfl
  | element :: elements, unrepeated => by
      rw [mergedElements, merged_eq_self element unrepeated.1,
        mergedElements_eq_self elements unrepeated.2]

theorem mergedMembers_eq_self : ∀ (members : List (String × Json)),
    UnrepeatedMembers members → mergedMembers members = members
  | [], _ => rfl
  | (name, value) :: members, unrepeated => by
      rw [mergedMembers, merged_eq_self value unrepeated.1,
        mergedMembers_eq_self members unrepeated.2]

end

/-! ## Merging leaves nothing repeated -/

theorem mem_names_putMember {name other : String} {value : Json} {members : List (String × Json)}
    (there : other ∈ (putMember name value members).map Prod.fst) :
    other = name ∨ other ∈ members.map Prod.fst := by
  induction members with
  | nil => exact .inl (List.mem_singleton.mp there)
  | cons member members induction =>
      rcases member with ⟨first, old⟩
      rw [putMember] at there
      split at there
      next => exact .inr there
      next =>
        rcases List.mem_cons.mp there with rfl | later
        · exact .inr List.mem_cons_self
        · exact (induction later).imp_right (List.mem_cons_of_mem first)

theorem nodup_putMember (name : String) (value : Json) {members : List (String × Json)}
    (nodup : (members.map Prod.fst).Nodup) :
    ((putMember name value members).map Prod.fst).Nodup := by
  induction members with
  | nil => exact List.pairwise_singleton _ name
  | cons member members induction =>
      rcases member with ⟨first, old⟩
      rw [putMember]
      split
      next => exact nodup
      next different =>
        rw [List.map_cons, List.nodup_cons] at nodup
        rw [List.map_cons, List.nodup_cons]
        refine ⟨fun there => ?_, induction nodup.2⟩
        exact (mem_names_putMember there).elim different nodup.1

theorem nodup_mergeMembers (members : List (String × Json)) :
    ((mergeMembers members).map Prod.fst).Nodup := by
  induction members using List.reverseRecOn with
  | nil => exact List.nodup_nil
  | append_singleton members member induction =>
      rw [mergeMembers_append]
      exact nodup_putMember member.1 member.2 induction

theorem forall_putMember {holds : Json → Prop} (name : String) {value : Json}
    (valueHolds : holds value) {members : List (String × Json)}
    (each : ∀ member ∈ members, holds member.2) :
    ∀ member ∈ putMember name value members, holds member.2 := by
  induction members with
  | nil => exact List.forall_mem_singleton.mpr valueHolds
  | cons member members induction =>
      rw [List.forall_mem_cons] at each
      rw [putMember]
      split
      next => exact List.forall_mem_cons.mpr ⟨valueHolds, each.2⟩
      next => exact List.forall_mem_cons.mpr ⟨each.1, induction each.2⟩

theorem forall_mergeMembers {holds : Json → Prop} {members : List (String × Json)}
    (each : ∀ member ∈ members, holds member.2) :
    ∀ member ∈ mergeMembers members, holds member.2 := by
  induction members using List.reverseRecOn with
  | nil => exact List.forall_mem_nil _
  | append_singleton members member induction =>
      rw [List.forall_mem_append] at each
      rw [mergeMembers_append]
      exact forall_putMember member.1 (each.2 member (List.mem_singleton_self _))
        (induction each.1)

theorem UnrepeatedMembers.putMember (name : String) {value : Json}
    {members : List (String × Json)} (unrepeated : UnrepeatedMembers members)
    (valueUnrepeated : value.Unrepeated) : UnrepeatedMembers (putMember name value members) := by
  induction members with
  | nil => exact ⟨valueUnrepeated, trivial⟩
  | cons member members induction =>
      rw [Json.putMember]
      split
      next => exact ⟨valueUnrepeated, unrepeated.2⟩
      next => exact ⟨unrepeated.1, induction unrepeated.2⟩

theorem UnrepeatedMembers.mergeMembers {members : List (String × Json)}
    (unrepeated : ∀ member ∈ members, member.2.Unrepeated) :
    UnrepeatedMembers (mergeMembers members) := by
  induction members using List.reverseRecOn with
  | nil => trivial
  | append_singleton members member induction =>
      rw [List.forall_mem_append] at unrepeated
      rw [mergeMembers_append]
      exact (induction unrepeated.1).putMember member.1 (unrepeated.2 _ (List.mem_singleton_self _))

mutual

/-- A merged tree repeats no name, whatever the tree was. -/
theorem unrepeated_merged : ∀ (tree : Json), tree.merged.Unrepeated
  | .array elements => by
      rw [merged]
      exact unrepeated_mergedElements elements
  | .object members => by
      rw [merged]
      exact ⟨nodup_mergeMembers _, .mergeMembers (unrepeated_mergedMembers members)⟩
  | .null | .bool _ | .number _ | .string _ => trivial

theorem unrepeated_mergedElements : ∀ (elements : List Json),
    UnrepeatedElements (mergedElements elements)
  | [] => trivial
  | element :: elements => ⟨unrepeated_merged element, unrepeated_mergedElements elements⟩

theorem unrepeated_mergedMembers : ∀ (members : List (String × Json)),
    ∀ member ∈ mergedMembers members, member.2.Unrepeated
  | [] => nofun
  | (_, value) :: members =>
      List.forall_mem_cons.mpr ⟨unrepeated_merged value, unrepeated_mergedMembers members⟩

end

end JsonQuery.Json
