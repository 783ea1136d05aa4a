import JsonQuery.Proofs.Document.Edit
import JsonQuery.Proofs.Selection.Direct
import JsonQuery.Proofs.Source.Places

/-!
Reading back what has been written. A write and a direct query follow the same way, but they do not
take the same names for positions of an array: the write takes zero with a minus sign, which the
query does not.
-/

namespace JsonQuery

/-! ## Names of positions -/

namespace Digits

theorem not_isDigit_minus : '-'.isDigit = false := by decide

theorem readCount?_minus (text : List Char) : readCount? ('-' :: text) = none := by
  simp [readCount?, readNat?, not_isDigit_minus]

theorem ofNat_bounded {count : Nat} {position : Int}
    (bounded : (if -0x8000000000000000 ≤ Int.ofNat count ∧ Int.ofNat count < 0x8000000000000000
      then some (Int.ofNat count) else none) = some position) :
    position.toNat = count ∧ count < 0x10000000000000000 := by
  split at bounded
  next inside =>
    have upper : (count : Int) < 0x8000000000000000 := inside.2
    rw [← Option.some.inj bounded]
    refine ⟨rfl, ?_⟩
    omega
  next => cases bounded

theorem readNat?_bounded {digits : List Char} {position : Int}
    (read : ((readNat? digits).map Int.ofNat >>= fun number =>
      if -0x8000000000000000 ≤ number ∧ number < 0x8000000000000000 then some number
      else none) = some position) :
    (readNat? digits >>= fun number => if number < 0x10000000000000000 then some number else none) =
      some position.toNat := by
  rcases Option.bind_eq_some_iff.mp read with ⟨number, isNumber, bounded⟩
  rcases Option.map_eq_some_iff.mp isNumber with ⟨count, isCount, rfl⟩
  rcases ofNat_bounded bounded with ⟨same, small⟩
  rw [isCount, same]
  exact if_pos small

theorem readCount?_of_readInteger? {text : List Char} {position : Int}
    (unsigned : text.head? ≠ some '-') (read : readInteger? text = some position) :
    readCount? text = some position.toNat := by
  unfold readInteger? at read
  unfold readCount?
  split at read
  next digits => exact absurd rfl unsigned
  next digits => exact readNat?_bounded read
  next noMinus noPlus =>
    split
    next digits => exact absurd rfl (noPlus digits)
    next => exact readNat?_bounded read

end Digits

namespace Json

def walk? : Json → Segment → Option Json
  | .object members, .key name => members.lookup name
  | .array elements, .key name =>
    (Digits.readCount? name.toList).bind fun position => elements[position]?
  | .array elements, .index position =>
    (resolveIndex? position elements.length).bind fun index => elements[index]?
  | _, _ => none

def walkAll? (tree : Json) (segments : List Segment) : Option Json :=
  segments.foldlM walk? tree

end Json

/-! ## Places -/

namespace Place

theorem value_getElem? {place : Place} {elements : List Json}
    (isArray : place.value = .array elements) (position : Nat) :
    place.elements[position]?.map Place.value = elements[position]? := by
  simp only [Place.elements, isArray, List.getElem?_mapIdx, Option.map_map]
  exact congrFun Option.map_id _

theorem value_walk? (place : Place) (segment : Segment) :
    (Node.walk? place segment).map Place.value = place.value.walk? segment := by
  have kind : Node.kind place = place.value.kind := rfl
  have field (name : String) : Node.field place name = place.members.lookup name := rfl
  have element (position : Nat) : Node.element place position = place.elements[position]? := rfl
  cases value : place.value with
  | object members =>
      rw [value] at kind
      cases segment with
      | key name => rw [Node.walk?, kind]; exact value_lookup value name
      | index position => rw [Node.walk?, kind]; rfl
  | array elements =>
      have length := length_of_array value
      rw [value] at kind
      cases segment with
      | key name =>
          rw [Node.walk?, kind, Json.walk?]
          cases Digits.readCount? name.toList with
          | none => rfl
          | some position => exact value_getElem? value position
      | index position =>
          rw [Node.walk?, kind, Json.walk?, length]
          dsimp only [Json.kind]
          cases resolveIndex? position elements.length with
          | none => rfl
          | some index => exact value_getElem? value index
  | null | bool | number | string =>
      rw [value] at kind
      cases segment <;> · rw [Node.walk?, kind]; rfl

theorem value_walkAll? (segments : List Segment) :
    ∀ place : Place,
      (Node.walkAll? place segments).map Place.value = place.value.walkAll? segments := by
  induction segments with
  | nil => intro place; rfl
  | cons segment segments induction =>
      intro place
      have step := value_walk? place segment
      simp only [Node.walkAll?, Json.walkAll?, List.foldlM_cons, ← step] at induction ⊢
      cases Node.walk? place segment with
      | none => rfl
      | some found => exact induction found

end Place

theorem Query.select_tree {query : Query} {segments : List Segment}
    (spelled : query.directSegments? = some segments) (context : Context) (tree : Json) :
    (query.select context (Place.root tree)).outcome = .ok (tree.walkAll? segments).toList := by
  have value := Place.value_walkAll? segments (Place.root tree)
  rw [Query.select_direct spelled]
  show _ = Except.ok ((Place.root tree).value.walkAll? segments).toList
  rw [← value]
  cases Node.walkAll? (Place.root tree) segments <;> rfl

/-! ## Reading back -/

def isSigned (name : String) : Bool :=
  name.toList.head? == some '-'

theorem readCount?_of_isSigned {name : String} (signed : isSigned name = true) :
    Digits.readCount? name.toList = none := by
  have minus : name.toList.head? = some '-' := eq_of_beq signed
  rcases List.head?_eq_some_iff.mp minus with ⟨digits, text⟩
  rw [text]
  exact Digits.readCount?_minus digits

namespace Json

/-- The names on the way of a write that are taken for positions of an array. -/
def elementNames (path : String) : List Segment → Json → List String
  | .key name :: segments, .object members =>
    elementNames path segments ((members.lookup name).getD (.object []))
  | .key name :: segments, .array elements =>
    match elementIndex elements.length (.key name) path with
    | .ok index => name :: (elements[index]?.map (elementNames path segments)).getD []
    | .error _ => [name]
  | .index position :: segments, .array elements =>
    match elementIndex elements.length (.index position) path with
    | .ok index => (elements[index]?.map (elementNames path segments)).getD []
    | .error _ => []
  | _, _ => []

theorem elementPosition_key {name : String} {position : Int}
    (named : elementPosition (.key name) = .ok position) :
    Digits.readInteger? name.toList = some position ∧ 0 ≤ position := by
  rw [elementPosition] at named
  split at named
  next found read =>
    cases named
    rw [Option.filter_eq_some_iff] at read
    exact ⟨read.1, of_decide_eq_true read.2⟩
  next => cases named

theorem toNat_of_resolveIndex? {position : Int} {length index : Nat} (fromTheStart : 0 ≤ position)
    (resolved : resolveIndex? position length = some index) : position.toNat = index := by
  have named := resolveIndex?_eq_some_iff.mp resolved
  omega

theorem walk?_set {elements : List Json} {segment : Segment} {path : String} {index : Nat}
    (named : elementIndex elements.length segment path = .ok index) (changed : Json) :
    (array (elements.set index changed)).walk? segment =
      match segment with
      | .key name => if isSigned name then none else some changed
      | .index _ => some changed := by
  have inside := elementIndex_lt named
  have there : (elements.set index changed)[index]? = some changed := by
    rw [List.getElem?_set_self inside]
  rcases elementIndex_eq_ok.mp named with ⟨position, isPosition, resolved⟩
  cases segment with
  | index other =>
      cases isPosition
      rw [walk?, List.length_set, resolved]
      exact there
  | key name =>
      rcases elementPosition_key isPosition with ⟨read, fromTheStart⟩
      dsimp only
      split
      next signed =>
        rw [walk?, readCount?_of_isSigned signed]
        rfl
      next unsigned =>
        have noMinus : name.toList.head? ≠ some '-' := by
          intro minus
          exact unsigned (beq_iff_eq.mpr minus)
        rw [walk?, Digits.readCount?_of_readInteger? noMinus read,
          toNat_of_resolveIndex? fromTheStart resolved]
        exact there

/-- After a write its way leads to what was written, unless it names an element with a sign. -/
theorem walkAll?_writeAt (value : Json) (path : String) (segments : List Segment) :
    ∀ tree, (writeAt value path segments tree).1 = .ok () →
      (writeAt value path segments tree).2.walkAll? segments =
        if (elementNames path segments tree).any isSigned then none else some value := by
  induction segments with
  | nil =>
      intro tree _
      cases tree <;> rfl
  | cons segment segments induction =>
      intro tree written
      rw [walkAll?, List.foldlM_cons]
      cases tree with
      | object members =>
          cases segment with
          | key name =>
              rw [writeAt] at written ⊢
              have below := induction _ written
              show ((putMember name _ members).lookup name).bind _ = _
              rw [lookup_putMember, if_pos rfl]
              exact below
          | index position => cases written
      | array elements =>
          rw [writeAt] at written ⊢
          cases named : elementIndex elements.length segment path with
          | error error =>
              rw [named] at written
              cases written
          | ok index =>
              have element := List.getElem?_eq_getElem (elementIndex_lt named)
              simp only [named, element] at written ⊢
              have below := induction _ written
              rw [walk?_set named]
              cases segment with
              | index position =>
                  rw [elementNames, named]
                  simp only [element]
                  exact below
              | key name =>
                  rw [elementNames, named]
                  simp only [element, List.any_cons]
                  cases isSigned name with
                  | true => rfl
                  | false => exact below
      | null | bool | number | string => cases segment <;> cases written

end Json

/-! ## Documents -/

namespace QueryCache

theorem get_of_find? {cache : QueryCache} {path : String} {query : Query}
    (found : cache.find? path = some query) : cache.get path = (.ok query, cache, []) := by
  rw [get, found]

theorem find?_add (cache : QueryCache) (path : String) (query : Query) :
    (cache.add path query).1 = cache ∨ (cache.add path query).1.find? path = some query := by
  rw [add]
  split
  next => exact .inl rfl
  next =>
    split
    · exact .inr List.lookup_cons_self
    · exact .inr List.lookup_cons_self

theorem get_get (cache : QueryCache) (path : String) :
    ((cache.get path).2.1.get path).1 = (cache.get path).1 := by
  cases found : cache.find? path with
  | some query => rw [get_of_find? found, get_of_find? found]
  | none =>
      cases parsed : Query.parse path with
      | error error =>
          have refused : cache.get path = (.error error, cache, []) := by
            rw [get, found, parsed]
          rw [refused, refused]
      | ok query =>
          have added : cache.get path = (.ok query, cache.add path query) := by
            rw [get, found, parsed]
          rw [added]
          rcases cache.find?_add path query with same | kept
          · rw [same, added]
          · rw [get_of_find? kept]

end QueryCache

theorem Settings.query_looked (settings : Settings) (path : String) :
    (settings.looked path).query path = settings.query path :=
  settings.cache.get_get path

theorem Settings.way_looked (settings : Settings) (path : String) :
    (settings.looked path).way path = settings.way path := by
  rw [Settings.way, Settings.query_looked, Settings.way]

theorem Settings.exists_query_of_way {settings : Settings} {path : String}
    {segments : List Segment} (way : settings.way path = .ok segments) :
    ∃ query, settings.query path = .ok query ∧ query.directSegments? = some segments := by
  rw [Settings.way] at way
  split at way
  next => cases way
  next query spelled =>
    split at way
    next direct =>
      cases way
      exact ⟨query, spelled, direct⟩
    next => cases way

namespace Document

section Changes

variable {document : Document} {session : Session} {path : String} {segments : List Segment}
  {tree : Json} {change : List Segment → Json → Except DocumentError Unit × Json}

theorem edit_direct (writable : document.readOnly = false)
    (way : session.settings.way path = .ok segments) (held : document.value = .ok tree) :
    ((document.edit path change).run session).1 =
        ((change segments tree).1, document.withTree (change segments tree).2) ∧
      ((document.edit path change).run session).2.settings = session.settings.looked path := by
  have notReadOnly : ¬document.readOnly = true := Bool.eq_false_iff.mp writable
  have answered := document.edit_answer path session change
  unfold editAnswer at answered
  rw [if_neg notReadOnly, if_neg notReadOnly, way, held] at answered
  exact answered

theorem set_direct (value : Json) (writable : document.readOnly = false)
    (way : session.settings.way path = .ok segments) (held : document.value = .ok tree) :
    ((document.set path value).run session).1 =
        ((Json.set value path segments tree).1,
          document.withTree (Json.set value path segments tree).2) ∧
      ((document.set path value).run session).2.settings = session.settings.looked path :=
  edit_direct writable way held

theorem edit_ok (changed : ((document.edit path change).run session).1.1 = .ok ()) :
    ∃ segments tree, document.readOnly = false ∧ session.settings.way path = .ok segments ∧
      document.value = .ok tree ∧ (change segments tree).1 = .ok () := by
  rw [(document.edit_answer path session change).1] at changed
  unfold editAnswer at changed
  split at changed
  next => cases changed
  next writable =>
    cases way : session.settings.way path with
    | error refusal =>
        rw [way] at changed
        cases changed
    | ok segments =>
        cases held : document.value with
        | error defect =>
            rw [way, held] at changed
            cases changed
        | ok tree =>
            rw [way, held] at changed
            exact ⟨segments, tree, Bool.eq_false_iff.mpr writable, rfl, rfl, changed⟩

theorem set_ok {value : Json} (written : ((document.set path value).run session).1.1 = .ok ()) :
    ∃ segments tree, session.settings.way path = .ok segments ∧ document.value = .ok tree ∧
      (Json.writeAt value path segments tree).1 = .ok () ∧
      ((document.set path value).run session).1.2 =
        document.withTree (Json.writeAt value path segments tree).2 ∧
      ((document.set path value).run session).2.settings = session.settings.looked path := by
  obtain ⟨segments, tree, writable, way, held, succeeded⟩ := edit_ok written
  have changed := set_direct value writable way held
  rw [Json.set_of_ok succeeded] at changed succeeded
  exact ⟨segments, tree, way, held, succeeded, congrArg Prod.snd changed.1, changed.2⟩

end Changes

theorem query_tree {document : Document} {tree : Json} (held : document.content = .tree tree)
    {session : Session} {path : String} {query : Query} {segments : List Segment}
    (spelled : session.settings.query path = .ok query)
    (direct : query.directSegments? = some segments) :
    ((document.query path).run session).1.1 = ⟨path, .ok (tree.walkAll? segments).toList⟩ := by
  have isDirect : query.isDirect = true := by
    rw [query.isDirect_eq_isSome, direct]
    rfl
  rw [(document.query_answer path session).1, spelled]
  simp only [queryAnswer, isDirect, if_true, selection, held, Query.select_tree direct]
  rfl

end Document

/-- What a path finds right after a value has been written there: exactly that value, and no error.
The one exception is a way that names an element of an array with a sign, where nothing is found. -/
theorem query_after_set (document : Document) (session : Session) (path : String) (value : Json)
    (written : ((document.set path value).run session).1.1 = .ok ()) :
    ∃ segments tree, session.settings.way path = .ok segments ∧ document.value = .ok tree ∧
      ((((document.set path value).run session).1.2.query path).run
          ((document.set path value).run session).2).1.1 =
        ⟨path, .ok (if (tree.elementNames path segments).any isSigned then [] else [value])⟩ := by
  rcases Document.set_ok written with ⟨segments, tree, way, held, succeeded, after, settings⟩
  rcases Settings.exists_query_of_way way with ⟨query, spelled, direct⟩
  refine ⟨segments, tree, way, held, ?_⟩
  have spelledAgain : ((document.set path value).run session).2.settings.query path =
      .ok query := by
    rw [settings, Settings.query_looked, spelled]
  rw [after]
  rw [Document.query_tree rfl spelledAgain direct,
    Json.walkAll?_writeAt value path segments tree succeeded]
  split <;> rfl

theorem query_after_set_signed :
    let document := Document.ofValue (.object [("xs", .array [.null])])
    let session := Session.start .standard
    ((document.set "/xs/-0" (.bool true)).run session).1.1 = .ok () ∧
      ((((document.set "/xs/-0" (.bool true)).run session).1.2.query "/xs/-0").run
          ((document.set "/xs/-0" (.bool true)).run session).2).1.1 = ⟨"/xs/-0", .ok []⟩ := by
  intro document session
  have written : ((document.set "/xs/-0" (.bool true)).run session).1.1 = .ok () := by
    decide +kernel
  have spelled : session.settings.way "/xs/-0" = .ok [.key "xs", .key "-0"] := by
    decide +kernel
  rcases query_after_set document session "/xs/-0" (.bool true) written with
    ⟨segments, tree, way, held, found⟩
  rw [spelled] at way
  cases way
  cases held
  exact ⟨written, found⟩

end JsonQuery
