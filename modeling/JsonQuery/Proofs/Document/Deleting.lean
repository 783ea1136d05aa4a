import JsonQuery.Proofs.Document.Holding
import JsonQuery.Proofs.Document.RoundTrip
import JsonQuery.Proofs.Document.Ways

/-!
Deleting where a query has looked. A deletion and a direct query follow the same way, but a name on
an array stops them differently: what is no position is no match for the query and a wrong type for
the deletion, and zero with a minus sign is a position for the deletion only.
-/

namespace JsonQuery

namespace Digits

theorem readInteger?_of_readCount? {text : List Char} {count : Nat}
    (read : readCount? text = some count) (small : count < 0x8000000000000000) :
    readInteger? text = some (count : Int) := by
  have ofNat {digits : List Char}
      (readDigits : (readNat? digits >>= fun number =>
        if number < 0x10000000000000000 then some number else none) = some count) :
      ((readNat? digits).map Int.ofNat >>= fun number =>
        if -0x8000000000000000 ≤ number ∧ number < 0x8000000000000000 then some number
        else none) = some (count : Int) := by
    rcases Option.bind_eq_some_iff.mp readDigits with ⟨number, isNumber, bounded⟩
    split at bounded
    next =>
      cases bounded
      have inside : -0x8000000000000000 ≤ (count : Int) ∧ (count : Int) < 0x8000000000000000 := by
        omega
      rw [isNumber, Option.map_some, Int.ofNat_eq_natCast, Option.bind_eq_bind, Option.bind_some,
        if_pos inside]
    next => cases bounded
  unfold readInteger?
  split
  next digits =>
    rw [readCount?_minus] at read
    cases read
  next digits => exact ofNat read
  next noMinus noPlus =>
    refine ofNat ?_
    unfold readCount? at read
    split at read
    next digits => exact absurd rfl (noPlus digits)
    next => exact read

end Digits

def isRefused (name : String) : Bool :=
  !(Json.elementPosition (.key name)).isOk

namespace Json

/-! ## One segment -/

def reach? (tree : Json) (segment : Segment) : Option Json :=
  (branch? (some tree) segment).bind tree.child?

def reachAll? (tree : Json) (segments : List Segment) : Option Json :=
  segments.foldlM reach? tree

theorem reach?_array (elements : List Json) (segment : Segment) (path : String) :
    (array elements).reach? segment =
      (elementIndex elements.length segment path).toOption.bind fun index => elements[index]? := by
  rw [reach?, branch?_array elements segment path, Option.bind_map]
  rfl

def positionNames : Json → Segment → List String
  | .array _, .key name => [name]
  | _, _ => []

theorem elementNames_nothing (path : String) (segments : List Segment) :
    elementNames path segments (.object []) = [] := by
  induction segments with
  | nil => rfl
  | cons segment segments induction =>
      cases segment with
      | key name => exact induction
      | index position => rfl

theorem elementNames_cons (path : String) (segment : Segment) (segments : List Segment)
    (tree : Json) :
    elementNames path (segment :: segments) tree =
      positionNames tree segment ++
        ((tree.reach? segment).map (elementNames path segments)).getD [] := by
  cases tree with
  | object members =>
      cases segment with
      | key name =>
          rw [elementNames, reach?, branch?]
          show _ = ((members.lookup name).map (elementNames path segments)).getD []
          cases members.lookup name with
          | none => exact elementNames_nothing path segments
          | some member => rfl
      | index position => rfl
  | array elements =>
      rw [reach?_array elements segment path]
      cases segment with
      | key name =>
          rw [elementNames]
          cases elementIndex elements.length (.key name) path <;> rfl
      | index position =>
          rw [elementNames]
          cases elementIndex elements.length (.index position) path <;> rfl
  | null | bool | number | string => cases segment <;> rfl

/-- Arrays that memory can hold: each position is an integer of 64 bits. -/
def InMemory (tree : Json) : Prop :=
  ∀ location elements, tree.at? location = some (.array elements) →
    elements.length ≤ 0x8000000000000000

theorem InMemory.child {tree child : Json} (inMemory : tree.InMemory) {branch : Branch}
    (leads : tree.child? branch = some child) : child.InMemory := by
  intro location elements isArray
  refine inMemory (branch :: location) elements ?_
  rw [at?_cons, leads]
  exact isArray

theorem inMemory_of_decode {source : List UInt8} {tree : Json} (decoded : decode source = .ok tree)
    (short : source.length ≤ 0x8000000000000000) : tree.InMemory := by
  intro location elements isArray
  rcases Nat.eq_zero_or_pos elements.length with empty | positive
  · omega
  · -- The last element stands at a location too.
    have inside : elements.length - 1 < elements.length := by omega
    have leads : tree.at? (location ++ [.element (elements.length - 1)]) =
        some (elements[elements.length - 1]) := by
      rw [at?_append, isArray, Option.bind_some, at?_cons, child?, List.getElem?_eq_getElem inside]
      rfl
    have before := position_lt_of_decode decoded leads (elements.length - 1) (by simp)
    omega

theorem le_of_readCount? {name : String} {position : Nat} {error : DocumentError}
    (refused : elementPosition (.key name) = .error error)
    (read : Digits.readCount? name.toList = some position) : 0x8000000000000000 ≤ position := by
  refine Nat.le_of_not_lt fun small => ?_
  have isInteger := Digits.readInteger?_of_readCount? read small
  rw [elementPosition, isInteger] at refused
  have natural : (some (position : Int)).filter (0 ≤ ·) = some (position : Int) :=
    Option.filter_eq_some_iff.mpr ⟨rfl, decide_eq_true (Int.natCast_nonneg position)⟩
  rw [natural] at refused
  cases refused

theorem getElem?_resolveIndex? {position : Int} (fromTheStart : 0 ≤ position)
    (elements : List Json) :
    ((resolveIndex? position elements.length).bind fun index => elements[index]?) =
      elements[position.toNat]? := by
  have same : fromStart elements.length position = position := if_neg (by omega)
  rw [resolveIndex?, same]
  split
  next => rfl
  next outside => exact (List.getElem?_eq_none (by omega)).symm

/-- Without a sign, a name that a mutation takes for a position names the same element for a query,
and any other name names none for either. -/
theorem walk?_unsigned {elements : List Json} (short : elements.length ≤ 0x8000000000000000)
    {name : String} (unsigned : isSigned name = false) :
    (array elements).walk? (.key name) = (array elements).reach? (.key name) := by
  rw [walk?, reach?, branch?]
  cases named : elementPosition (.key name) with
  | error error =>
      cases read : Digits.readCount? name.toList with
      | none => rfl
      | some position =>
          have outside := Nat.le_trans short (le_of_readCount? named read)
          exact List.getElem?_eq_none outside
  | ok position =>
      rcases elementPosition_key named with ⟨read, fromTheStart⟩
      have noMinus : name.toList.head? ≠ some '-' := beq_eq_false_iff_ne.mp unsigned
      rw [Digits.readCount?_of_readInteger? noMinus read]
      show elements[position.toNat]? = (Option.map _ _).bind _
      rw [Option.bind_map]
      exact (getElem?_resolveIndex? fromTheStart elements).symm

theorem walk?_eq_reach? {tree : Json} (inMemory : tree.InMemory) (segment : Segment) :
    tree.walk? segment =
      if (positionNames tree segment).any isSigned then none else tree.reach? segment := by
  cases tree with
  | object members => cases segment <;> rfl
  | array elements =>
      have short : elements.length ≤ 0x8000000000000000 := inMemory [] elements rfl
      cases segment with
      | index position =>
          show (resolveIndex? position elements.length).bind _ = (Option.map _ _).bind _
          rw [Option.bind_map]
          rfl
      | key name =>
          show _ = if isSigned name || false then none else reach? _ _
          rw [Bool.or_false]
          cases signed : isSigned name with
          | true =>
              rw [walk?, readCount?_of_isSigned signed]
              rfl
          | false => exact walk?_unsigned short signed
  | null | bool | number | string => cases segment <;> rfl

theorem walkAll?_eq_reachAll? (path : String) (segments : List Segment) :
    ∀ {tree : Json}, tree.InMemory →
      tree.walkAll? segments =
        if (elementNames path segments tree).any isSigned then none
        else tree.reachAll? segments := by
  induction segments with
  | nil =>
      intro tree _
      cases tree <;> rfl
  | cons segment segments induction =>
      intro tree inMemory
      rw [walkAll?, reachAll?, List.foldlM_cons, List.foldlM_cons, walk?_eq_reach? inMemory,
        elementNames_cons, List.any_append]
      cases (positionNames tree segment).any isSigned with
      | true => rfl
      | false =>
          rw [if_neg Bool.false_ne_true, Bool.false_or]
          cases reached : tree.reach? segment with
          | none => rfl
          | some child =>
              rcases Option.bind_eq_some_iff.mp reached with ⟨branch, _, leads⟩
              exact induction (inMemory.child leads)

/-! ## Deleting -/

/-- Why there is nothing to delete: a name that spells no position has the wrong type, and anything
else is no match. -/
def absence (path : String) (names : List String) : DocumentError :=
  if names.any isRefused then .typeMismatch .object .array else .notFound path

theorem elementIndex_error {elements : List Json} {segment : Segment} {path : String}
    {error : DocumentError} (failed : elementIndex elements.length segment path = .error error) :
    error = absence path (positionNames (.array elements) segment) := by
  rw [elementIndex] at failed
  cases named : elementPosition segment with
  | error refusal =>
      rw [named] at failed
      cases failed
      cases segment with
      | index position => cases named
      | key name =>
          have refused : isRefused name = true := by
            rw [isRefused, named]
            rfl
          rw [absence, positionNames, List.any_cons, refused]
          rw [elementPosition] at named
          split at named
          next => cases named
          next => exact (Except.error.inj named).symm
  | ok position =>
      rw [named, ok_bind] at failed
      have missing : error = .notFound path := by
        cases resolved : resolveIndex? position elements.length with
        | none =>
            rw [resolved] at failed
            exact (Except.error.inj failed).symm
        | some index =>
            rw [resolved] at failed
            cases failed
      cases segment with
      | index position => exact missing
      | key name =>
          have accepted : isRefused name = false := by
            rw [isRefused, named]
            rfl
          rw [absence, positionNames, List.any_cons, accepted]
          exact missing

theorem not_refused_of_reach? {tree child : Json} {segment : Segment}
    (reached : tree.reach? segment = some child) :
    (positionNames tree segment).any isRefused = false := by
  cases tree with
  | array elements =>
      cases segment with
      | index position => rfl
      | key name =>
          rw [reach?, branch?] at reached
          cases named : elementPosition (.key name) with
          | error error =>
              rw [named] at reached
              cases reached
          | ok position =>
              rw [positionNames, List.any_cons, isRefused, named]
              rfl
  | null | bool | number | string | object => cases segment <;> rfl

theorem delete_step (path : String) (segment : Segment) (segments : List Segment) (tree : Json) :
    (delete path (segment :: segments) tree).1 =
      match tree.reach? segment with
      | none => .error (absence path (positionNames tree segment))
      | some child => if segments = [] then .ok () else (delete path segments child).1 := by
  cases tree with
  | object members =>
      cases segment with
      | key name =>
          show _ = match members.lookup name with
            | none => _
            | some child => _
          cases found : members.lookup name with
          | none => cases segments <;> (simp only [delete, found]; rfl)
          | some child => cases segments <;> (simp only [delete, found]; rfl)
      | index position => rfl
  | array elements =>
      cases named : elementIndex elements.length segment path with
      | error error =>
          rw [reach?_array elements segment path, delete, named, elementIndex_error named]
          rfl
      | ok index =>
          have inside := elementIndex_lt named
          have element := List.getElem?_eq_getElem inside
          have reached : (array elements).reach? segment = some elements[index] := by
            rw [reach?_array elements segment path, named]
            exact element
          rw [reached, delete, named]
          cases segments <;> (simp only [element]; rfl)
  | null | bool | number | string => cases segment <;> cases segments <;> rfl

theorem delete_outcome (path : String) (segments : List Segment) : segments ≠ [] → ∀ tree,
    (delete path segments tree).1 =
      match tree.reachAll? segments with
      | some _ => .ok ()
      | none => .error (absence path (elementNames path segments tree)) := by
  induction segments with
  | nil => exact fun below => absurd rfl below
  | cons segment segments induction =>
      intro _ tree
      rw [delete_step, elementNames_cons, reachAll?, List.foldlM_cons]
      cases reached : tree.reach? segment with
      | none =>
          show _ = Except.error (absence path (positionNames tree segment ++ []))
          rw [List.append_nil]
      | some child =>
          cases segments with
          | nil => rfl
          | cons next segments =>
              have below := induction (List.cons_ne_nil next segments) child
              show (delete path (next :: segments) child).1 =
                match reachAll? child (next :: segments) with
                | some _ => .ok ()
                | none => .error (absence path (positionNames tree segment ++
                    elementNames path (next :: segments) child))
              rw [below, absence, absence, List.any_append, not_refused_of_reach? reached,
                Bool.false_or]

end Json

/-! ## Documents -/

namespace Document

variable {document : Document} {tree : Json} {session : Session} {path : String}
  {segments : List Segment}

theorem Holds.query_direct (holds : document.Holds tree)
    (way : session.settings.way path = .ok segments) :
    ((document.query path).run session).1 =
        (⟨path, .ok (tree.walkAll? segments).toList⟩, document) ∧
      ((document.query path).run session).2.settings.way path = .ok segments := by
  rcases Settings.exists_query_of_way way with ⟨query, spelled, direct⟩
  have isDirect : query.isDirect = true := by
    rw [query.isDirect_eq_isSome, direct]
    rfl
  have answered := document.query_answer path session
  rw [spelled] at answered
  constructor
  · rw [answered.1]
    refine Prod.ext ?_ ?_
    · have selected := (holds.queryAnswer path query session.settings.context).1
      rw [Json.selection, Query.select_tree direct] at selected
      exact selected
    · dsimp only
      rw [Document.queryAnswer, if_pos isDirect]
  · rw [answered.2, Settings.way_looked, way]

theorem Holds.delete (holds : document.Holds tree) (writable : document.readOnly = false)
    (way : session.settings.way path = .ok segments) :
    ((document.delete path).run session).1.1 = (Json.delete path segments tree).1 :=
  congrArg Prod.fst (edit_direct writable way holds.value).1

end Document

/-- Deleting right after a direct query. It succeeds exactly if the query has one match, unless a
position on the way is spelled with a sign: the query does not go there. It finds no match if the
query finds none, unless a name on the way is given for a position and spells none: then the type
is wrong. -/
theorem delete_after_query {document : Document} {tree : Json} {session : Session} {path : String}
    {segments : List Segment} (holds : document.Holds tree) (writable : document.readOnly = false)
    (inMemory : tree.InMemory) (way : session.settings.way path = .ok segments)
    (below : segments ≠ []) :
    let queried := (document.query path).run session
    let deleted := (queried.1.2.delete path).run queried.2
    let names := tree.elementNames path segments
    queried.1.1 =
        ⟨path, .ok (if names.any isSigned then [] else (tree.reachAll? segments).toList)⟩ ∧
      deleted.1.1 =
        (match tree.reachAll? segments with
          | some _ => .ok ()
          | none => .error (if names.any isRefused then .typeMismatch .object .array
              else .notFound path)) ∧
      (names.any isSigned = false →
        (deleted.1.1 = .ok () ↔ ∃ value, queried.1.1 = ⟨path, .ok [value]⟩) ∧
          (queried.1.1 = ⟨path, .ok []⟩ → names.any isRefused = false →
            deleted.1.1 = .error (.notFound path))) := by
  intro queried deleted names
  rcases holds.query_direct way with ⟨answered, wayAgain⟩
  have isQueried : queried.1.1 =
      ⟨path, .ok (if names.any isSigned then [] else (tree.reachAll? segments).toList)⟩ := by
    rw [congrArg Prod.fst answered, Json.walkAll?_eq_reachAll? path segments inMemory]
    dsimp only
    split <;> rfl
  have isDeleted : deleted.1.1 =
      (match tree.reachAll? segments with
        | some _ => .ok ()
        | none => .error (if names.any isRefused then .typeMismatch .object .array
            else .notFound path)) := by
    have unchanged : queried.1.2 = document := congrArg Prod.snd answered
    rw [← Json.absence, ← Json.delete_outcome path segments below tree]
    exact (unchanged ▸ holds).delete (unchanged ▸ writable) wayAgain
  refine ⟨isQueried, isDeleted, fun unsigned => ?_⟩
  rw [isQueried, isDeleted, unsigned, if_neg Bool.false_ne_true]
  cases tree.reachAll? segments with
  | none =>
      refine ⟨⟨nofun, nofun⟩, fun _ accepted => ?_⟩
      rw [accepted]
      rfl
  | some found => exact ⟨⟨fun _ => ⟨found, rfl⟩, fun _ => rfl⟩, nofun⟩

theorem delete_after_query_named :
    let document : Document := ⟨.raw (Utf8.encode
      ['{', '"', 'x', 's', '"', ':', '[', 't', 'r', 'u', 'e', ']', '}']), false, false⟩
    let session := Session.start .standard
    (((document.query "/xs/name").run session).1.1 = ⟨"/xs/name", .ok []⟩ ∧
        ((((document.query "/xs/name").run session).1.2.delete "/xs/name").run
            ((document.query "/xs/name").run session).2).1.1 =
          .error (.typeMismatch .object .array)) ∧
      ((document.query "/xs/-0").run session).1.1 = ⟨"/xs/-0", .ok []⟩ ∧
        ((((document.query "/xs/-0").run session).1.2.delete "/xs/-0").run
            ((document.query "/xs/-0").run session).2).1.1 = .ok () := by
  intro document session
  let tree := Json.object [("xs", .array [.bool true])]
  have decoded : Json.decode (Utf8.encode
      ['{', '"', 'x', 's', '"', ':', '[', 't', 'r', 'u', 'e', ']', '}']) = .ok tree := by cbv
  have holds : document.Holds tree := ⟨rfl, .inr ⟨_, _, rfl, rfl, rfl, rfl, decoded⟩⟩
  have inMemory : tree.InMemory := Json.inMemory_of_decode decoded (by cbv)
  constructor
  · have way : session.settings.way "/xs/name" = .ok [.key "xs", .key "name"] := by
      decide +kernel
    rcases delete_after_query holds rfl inMemory way (List.cons_ne_nil _ _) with
      ⟨isQueried, isDeleted, _⟩
    have reached : tree.reachAll? [.key "xs", .key "name"] = none := by cbv
    have refused :
        (tree.elementNames "/xs/name" [.key "xs", .key "name"]).any isRefused = true := by cbv
    rw [reached, Option.toList_none, ite_self] at isQueried
    rw [reached, refused] at isDeleted
    exact ⟨isQueried, isDeleted⟩
  · have way : session.settings.way "/xs/-0" = .ok [.key "xs", .key "-0"] := by
      decide +kernel
    rcases delete_after_query holds rfl inMemory way (List.cons_ne_nil _ _) with
      ⟨isQueried, isDeleted, _⟩
    have reached : tree.reachAll? [.key "xs", .key "-0"] = some (.bool true) := by cbv
    have signed : (tree.elementNames "/xs/-0" [.key "xs", .key "-0"]).any isSigned = true := by
      cbv
    rw [signed, if_pos rfl] at isQueried
    rw [reached] at isDeleted
    exact ⟨isQueried, isDeleted⟩

end JsonQuery
