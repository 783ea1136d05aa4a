import JsonQuery.Proofs.Document.Deleting
import JsonQuery.Proofs.Document.Frame

/-!
Writing over what stands somewhere. A tree behaves at a branch like a lens: what has been put there
is found there, putting back what is there changes nothing, and what is put last replaces what was
put before. A write goes through one branch after the other, so the same holds of its whole way.
-/

namespace JsonQuery

namespace Json

/-! ## One branch -/

/-- The tree with a child put at a branch. An object that lacks the member gains it. -/
def putChild : Json → Branch → Json → Json
  | .object members, .member name, child => .object (putMember name child members)
  | .array elements, .element index, child => .array (elements.set index child)
  | tree, _, _ => tree

theorem putMember_putMember (name : String) (first second : Json)
    (members : List (String × Json)) :
    putMember name second (putMember name first members) = putMember name second members := by
  induction members with
  | nil => simp [putMember]
  | cons member members induction =>
      by_cases here : member.1 = name
      · simp [putMember, here]
      · simp [putMember, here, induction]

theorem putChild_putChild (tree : Json) (branch : Branch) (first second : Json) :
    (tree.putChild branch first).putChild branch second = tree.putChild branch second := by
  cases branch with
  | member name => cases tree <;> simp [putChild, putMember_putMember]
  | element index => cases tree <;> simp [putChild]

theorem putChild_child? {tree child : Json} {branch : Branch}
    (leads : tree.child? branch = some child) : tree.putChild branch child = tree := by
  cases branch with
  | member name =>
      cases tree with
      | object members => simpa [putChild] using putMember_lookup leads
      | null | bool | number | string | array => rfl
  | element index =>
      cases tree with
      | array elements =>
          obtain ⟨inside, there⟩ := List.getElem?_eq_some_iff.mp leads
          simp [putChild, ← there]
      | null | bool | number | string | object => rfl

/-- A segment names the same branch whatever has been put there. -/
theorem branch?_putChild (tree : Json) (branch : Branch) (child : Json) (segment : Segment) :
    branch? (some (tree.putChild branch child)) segment = branch? (some tree) segment := by
  cases branch with
  | member name => cases tree <;> cases segment <;> rfl
  | element index => cases tree <;> cases segment <;> simp [putChild, branch?]

theorem child?_putChild {tree : Json} {segment : Segment} {branch : Branch}
    (named : branch? (some tree) segment = some branch) (child : Json) :
    (tree.putChild branch child).child? branch = some child := by
  cases tree with
  | object members =>
      cases segment with
      | key name =>
          cases named
          simp [putChild, child?, lookup_putMember]
      | index position => cases named
  | array elements =>
      simp only [branch?, Option.bind_eq_bind, Option.bind_eq_some_iff,
        Option.map_eq_some_iff] at named
      obtain ⟨position, _, index, resolved, same⟩ := named
      cases same
      have inside := (resolveIndex?_eq_some_iff.mp resolved).1
      simp [putChild, child?, inside]
  | null | bool | number | string => cases segment <;> cases named

/-! ## The whole way -/

/-- A write goes on in what stands at the branch that its first segment names, or in an empty
object, and puts back what becomes of it. -/
theorem writeAt_branch {tree : Json} {segment : Segment} {branch : Branch}
    (named : branch? (some tree) segment = some branch) (value : Json) (path : String)
    (segments : List Segment) :
    writeAt value path (segment :: segments) tree =
      (writeAt value path segments ((tree.child? branch).getD (.object []))).map id
        (tree.putChild branch) := by
  cases tree with
  | object members =>
      cases segment with
      | key name =>
          cases named
          rfl
      | index position => cases named
  | array elements =>
      rw [branch?_array elements segment path] at named
      cases isIndex : elementIndex elements.length segment path with
      | error error => simp [isIndex, Except.toOption] at named
      | ok index =>
          have inside := elementIndex_lt isIndex
          simp only [isIndex, Except.toOption, Option.map_some, Option.some.injEq] at named
          subst named
          simp only [writeAt, isIndex, child?, List.getElem?_eq_getElem inside, Option.getD_some]
          rfl
  | null | bool | number | string => cases segment <;> cases named

/-- Writing back what stands at the end of a way leaves the tree as it is. -/
theorem writeAt_reached (path : String) {value : Json} (segments : List Segment) :
    ∀ {tree : Json}, tree.reachAll? segments = some value →
      writeAt value path segments tree = (.ok (), tree) := by
  induction segments with
  | nil =>
      intro tree reached
      cases reached
      rw [writeAt]
  | cons segment segments induction =>
      intro tree reached
      simp only [reachAll?, List.foldlM_cons, Option.bind_eq_bind,
        Option.bind_eq_some_iff] at reached
      obtain ⟨child, found, further⟩ := reached
      obtain ⟨branch, named, leads⟩ := Option.bind_eq_some_iff.mp found
      rw [writeAt_branch named, leads, Option.getD_some, induction further]
      simp [putChild_child? leads]

/-- A write that succeeds is forgotten by the next one along the same way. -/
theorem writeAt_writeAt (path : String) {first : Json} (second : Json) (segments : List Segment) :
    ∀ {tree : Json}, (writeAt first path segments tree).1 = .ok () →
      writeAt second path segments (writeAt first path segments tree).2 =
        writeAt second path segments tree := by
  induction segments with
  | nil =>
      intro tree _
      simp [writeAt]
  | cons segment segments induction =>
      intro tree written
      have isWritten : writeAt first path (segment :: segments) ((some tree).getD (.object [])) =
          (.ok (), (writeAt first path (segment :: segments) tree).2) := Prod.ext written rfl
      obtain ⟨branch, child, named, _, _⟩ := passed_writeAt isWritten
      rw [writeAt_branch named] at written ⊢
      have namedAgain (child : Json) :
          branch? (some (tree.putChild branch child)) segment = some branch :=
        (branch?_putChild tree branch child segment).trans named
      rw [Prod.map_snd, writeAt_branch (namedAgain _), child?_putChild named, Option.getD_some,
        induction written, writeAt_branch named]
      simp [Prod.map, putChild_putChild]

theorem set_reached (path : String) {tree value : Json} {segments : List Segment}
    (reached : tree.reachAll? segments = some value) :
    set value path segments tree = (.ok (), tree) := by
  have written := writeAt_reached path segments reached
  have succeeded : (set value path segments tree).1 = .ok () := by
    rw [set_outcome, ← writeAt_outcome value, written]
  rw [set_of_ok succeeded, written]

/-- Whether a way can be written does not depend on the value. -/
theorem set_ok_of_ok {path : String} {tree first : Json} {segments : List Segment}
    (succeeded : (set first path segments tree).1 = .ok ()) (second : Json) :
    (set second path segments tree).1 = .ok () := by
  rw [set_outcome] at succeeded ⊢
  exact succeeded

theorem set_set {path : String} {tree first : Json} {segments : List Segment}
    (succeeded : (set first path segments tree).1 = .ok ()) (second : Json) :
    set second path segments (set first path segments tree).2 = set second path segments tree := by
  have alone := set_ok_of_ok succeeded second
  have isWritten := set_of_ok succeeded
  rw [isWritten] at succeeded ⊢
  have forgotten := writeAt_writeAt path second segments succeeded
  have again : (set second path segments (writeAt first path segments tree).2).1 = .ok () := by
    rw [set_outcome, ← writeAt_outcome second, forgotten, ← set_of_ok alone, alone]
  rw [set_of_ok again, set_of_ok alone, forgotten]

end Json

/-! ## Documents -/

namespace Document

variable {document : Document} {session : Session} {path : String}

theorem withTree_withTree (document : Document) (first second : Json) :
    (document.withTree first).withTree second = document.withTree second := by
  simp [withTree, holdsTree]

/-- The one value that a direct query finds is what a mutation reaches. -/
theorem Holds.reachAll?_of_found {tree value : Json} {segments : List Segment}
    (holds : document.Holds tree) (inMemory : tree.InMemory)
    (way : session.settings.way path = .ok segments)
    (found : ((document.query path).run session).1.1 = ⟨path, .ok [value]⟩) :
    tree.reachAll? segments = some value := by
  rw [congrArg Prod.fst (holds.query_direct way).1] at found
  have matched : (tree.walkAll? segments).toList = [value] :=
    Except.ok.inj (congrArg QueryResult.outcome found)
  rw [Json.walkAll?_eq_reachAll? path segments inMemory] at matched
  split at matched
  next => cases matched
  next => exact Option.toList_eq_singleton_iff.mp matched

/-- What a direct query has found can be written back after it, and nothing changes. -/
theorem Holds.set_found {tree value : Json} {segments : List Segment}
    (holds : document.Holds tree) (writable : document.readOnly = false)
    (inMemory : tree.InMemory) (way : session.settings.way path = .ok segments)
    (found : ((document.query path).run session).1.1 = ⟨path, .ok [value]⟩) :
    let queried := (document.query path).run session
    ((queried.1.2.set path value).run queried.2).1 = (.ok (), document.withTree tree) := by
  intro queried
  obtain ⟨answered, wayAgain⟩ := holds.query_direct way
  have unchanged : queried.1.2 = document := congrArg Prod.snd answered
  rw [unchanged, (set_direct value writable wayAgain holds.value).1,
    Json.set_reached path (holds.reachAll?_of_found inMemory way found)]

/-- A write that succeeds is forgotten by the next one at the same path. -/
theorem set_set {first : Json}
    (succeeded : ((document.set path first).run session).1.1 = .ok ()) (second : Json) :
    let written := (document.set path first).run session
    ((written.1.2.set path second).run written.2).1.1 = .ok () ∧
      ((written.1.2.set path second).run written.2).1 =
        ((document.set path second).run session).1 := by
  intro written
  obtain ⟨segments, tree, writable, way, held, isWritten⟩ := edit_ok succeeded
  have done := set_direct first writable way held
  have alone := set_direct second writable way held
  have stored : written.1.2 = document.withTree (Json.set first path segments tree).2 :=
    congrArg Prod.snd done.1
  have wayAgain : written.2.settings.way path = .ok segments := by
    rw [done.2, Settings.way_looked, way]
  have stillWritable :
      (document.withTree (Json.set first path segments tree).2).readOnly = false := writable
  have again := set_direct second stillWritable wayAgain rfl
  rw [Json.set_set isWritten, withTree_withTree, ← stored] at again
  constructor
  · rw [congrArg Prod.fst again.1]
    exact Json.set_ok_of_ok isWritten second
  · exact again.1.trans alone.1.symm

end Document

/-- The laws of a lens. To write back the one value that a direct query has found succeeds and
leaves the value of the document as it is, with all members in their order. And after a write that
has succeeded another one at the same path succeeds too, and leaves the document as it would be if
that one had been the first. -/
theorem set_lens_laws (document : Document) (session : Session) (path : String) :
    (∀ tree segments value, document.Holds tree → document.readOnly = false → tree.InMemory →
      session.settings.way path = .ok segments →
        let queried := (document.query path).run session
        queried.1.1 = ⟨path, .ok [value]⟩ →
          let written := (queried.1.2.set path value).run queried.2
          written.1.1 = .ok () ∧ written.1.2.value = .ok tree) ∧
    ∀ first second,
      let written := (document.set path first).run session
      written.1.1 = .ok () →
        let rewritten := (written.1.2.set path second).run written.2
        rewritten.1.1 = .ok () ∧
          rewritten.1 = ((document.set path second).run session).1 := by
  constructor
  · intro tree segments value holds writable inMemory way queried found
    have written := holds.set_found writable inMemory way found
    constructor
    · exact congrArg Prod.fst written
    · exact congrArg (fun answer => answer.2.value) written
  · intro first second written succeeded
    exact Document.set_set succeeded second

/-- An element is named with a sign, and an object is created on the way. -/
theorem set_lens_laws_created :
    let session := Session.start .standard
    let document : Document := ⟨.raw (Utf8.encode
      ['{', '"', 'x', '"', ':', '[', 't', 'r', 'u', 'e', ']', '}']), false, false⟩
    let queried := (document.query "/x/+0").run session
    let written := (queried.1.2.set "/x/+0" (.bool true)).run queried.2
    let created := (document.set "/y/z" .null).run session
    let again := (created.1.2.set "/y/z" (.bool false)).run created.2
    (written.1.1 = .ok () ∧ written.1.2.value = .ok (.object [("x", .array [.bool true])])) ∧
      again.1.1 = .ok () ∧ again.1 = ((document.set "/y/z" (.bool false)).run session).1 := by
  intro session document
  let tree := Json.object [("x", .array [.bool true])]
  have decoded : Json.decode (Utf8.encode
      ['{', '"', 'x', '"', ':', '[', 't', 'r', 'u', 'e', ']', '}']) = .ok tree := by cbv
  have holds : document.Holds tree := ⟨rfl, .inr ⟨_, _, rfl, rfl, rfl, rfl, decoded⟩⟩
  have inMemory : tree.InMemory := Json.inMemory_of_decode decoded (by cbv)
  have way : session.settings.way "/x/+0" = .ok [.key "x", .key "+0"] := by decide +kernel
  have found : ((document.query "/x/+0").run session).1.1 = ⟨"/x/+0", .ok [.bool true]⟩ := by
    have walked : tree.walkAll? [.key "x", .key "+0"] = some (.bool true) := by cbv
    rw [congrArg Prod.fst (holds.query_direct way).1, walked]
    rfl
  have succeeded : ((document.set "/y/z" .null).run session).1.1 = .ok () := by decide +kernel
  have back := (set_lens_laws document session "/x/+0").1 tree _ (.bool true) holds rfl inMemory way
  have last := (set_lens_laws document session "/y/z").2 .null (.bool false)
  exact ⟨back found, last succeeded⟩

end JsonQuery
