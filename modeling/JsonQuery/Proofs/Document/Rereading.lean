import JsonQuery.Proofs.Document.Preservation
import JsonQuery.Proofs.Json.Writing

/-!
Reading back what documents write. Whatever is done to documents over accepted texts, they hold
values that texts can spell. So what they write is read back, unless mutations have made a value
nest more deeply than texts may: a write bounds neither its way nor the nesting of what it puts
there. Of doubles it is assumed that each is read back from what is written of it alone.
-/

namespace JsonQuery

/-! ## Values at hand -/

section Editable

variable {holds : Json → Prop} (editable : Json.Editable holds)

include editable

theorem Json.Editable.inherited : Json.Inherited holds :=
  ⟨editable.element, editable.member, editable.fewerElements⟩

theorem Command.keeps_of_editable {command : Command}
    (setHolds : ∀ position path value, command = .document position (.operation (.set path value)) →
      holds value) :
    command.Keeps holds :=
  command.keeps_of
    (fun position path value same _ segments _ _ _ treeHolds =>
      editable.set (setHolds position path value same) path segments treeHolds)
    fun _ path _ segments _ treeHolds => editable.delete path segments treeHolds

end Editable

/-- A property of which nothing follows for the errors of queries. -/
theorem Json.Inherited.invariant {holds : Json → Prop} (inherited : Json.Inherited holds)
    (context : Context) : Invariant holds (fun _ => True) context where
  inherited := inherited
  malformed _ _ _ := trivial
  deep _ _ _ := trivial

/-- Whether the way of a path leaves room for a value at its end. -/
def Json.FitsAt (value : Json) (path : String) : Prop :=
  ∀ query segments, Query.parse path = .ok query → query.directSegments? = some segments →
    ∃ levels, value.NestsWithin levels ∧ segments.length + levels ≤ nestingLimit

theorem Command.keeps_nestsWithin {command : Command}
    (fits : ∀ position path value, command = .document position (.operation (.set path value)) →
      value.FitsAt path) :
    command.Keeps (Json.NestsWithin Json.nestingLimit) := by
  refine command.keeps_of ?_ fun _ path _ segments _ within => within.delete path segments
  intro position path value same query segments parsed isDirect tree treeWithin
  rcases fits position path value same query segments parsed isDirect with ⟨levels, within, room⟩
  exact within.set path room treeWithin

/-! ## What is written -/

/-- Parsing what the document writes gives a document of the same value. -/
def Document.ReadsBack (document : Document) : Prop :=
  ∃ value reread, document.value = .ok value ∧ Document.parse document.bytes = .ok reread ∧
    reread.value = .ok value

namespace Document.Holds

variable {document : Document} {value : Json}

theorem unique (holds : document.Holds value) {other : Json} (alsoHolds : document.Holds other) :
    value = other :=
  Except.ok.inj (holds.value.symm.trans alsoHolds.value)

theorem of_has (holds : document.Holds value) {kept : Json → Prop} (has : document.Has kept) :
    kept value := by
  rcases has with ⟨other, alsoHolds, otherKept⟩
  cases holds.unique alsoHolds
  exact otherKept

theorem decode_bytes (holds : document.Holds value) (storable : value.Storable)
    (readsBack : value.DoublesReadBack) (within : value.NestsWithin Json.nestingLimit) :
    Json.decode document.bytes = .ok value := by
  rcases holds.content with same | ⟨source, _, isRaw, _, isTree, _, decoded⟩
  · rw [same]
    exact storable.decode_write readsBack within
  · cases isTree
    rw [Document.bytes, isRaw]
    exact decoded

theorem readsBack (holds : document.Holds value) (storable : value.Storable)
    (readsBack : value.DoublesReadBack) (within : value.NestsWithin Json.nestingLimit) :
    document.ReadsBack := by
  have decoded := holds.decode_bytes storable readsBack within
  have parsed := Document.parse_of_ok decoded
  rcases Document.holds_parse parsed with ⟨found, same, rereadHolds⟩
  rw [decoded] at same
  cases same
  exact ⟨value, _, holds.value, parsed, rereadHolds.value⟩

/-- A value that nests too deeply does not come from a text as it is, so it is written anew. -/
theorem refused (holds : document.Holds value) (storable : value.Storable)
    (deep : ¬value.NestsWithin Json.nestingLimit) :
    ∃ detail, Document.parse document.bytes = .error (.invalidInput detail) := by
  rcases holds.content with same | ⟨source, _, _, _, isTree, _, decoded⟩
  · rcases storable.decode_write_refused deep with ⟨defect, refused⟩
    rw [same]
    exact ⟨defect.message, Document.parse_of_error refused⟩
  · cases isTree
    exact absurd (Json.nestsWithin_of_decode decoded) deep

end Document.Holds

/-- Documents over accepted texts, after any commands to them, their results and their views, where
what is set decodes from some text. What a document writes is read back with the same value if
that nests at most 127 arrays and objects and each double in it reads back, and is refused as input
if it nests more of them. The latter takes a write whose path and value are too long and too deep
together. -/
theorem written_documents_read_back {documents : List Document} {session : Session}
    (parsed : ∀ document ∈ documents, ∃ source, Document.parse source = .ok document)
    (faithful : session.settings.cache.Faithful) {events : List Event}
    (decodes : ∀ position path value,
      .document position (.operation (.set path value)) ∈ Event.commands events →
        ∃ source, Json.decode source = .ok value) :
    let workspace := (((Workspace.mk documents []).run events).run session).1.2
    (∀ document ∈ workspace.documents, ∃ value, document.value = .ok value ∧
      (value.DoublesReadBack → value.NestsWithin 127 → document.ReadsBack) ∧
      (¬value.NestsWithin 127 →
        ∃ detail, Document.parse document.bytes = .error (.invalidInput detail))) ∧
    ((∀ document ∈ documents, ∀ value, document.value = .ok value → value.DoublesReadBack) →
      (∀ position path value,
        .document position (.operation (.set path value)) ∈ Event.commands events →
          value.DoublesReadBack ∧ value.FitsAt path) →
      ∀ document ∈ workspace.documents, document.ReadsBack) := by
  have ready : session.Ready session.settings.context := ⟨rfl, faithful⟩
  have storable := ((Json.editable_storable.inherited.invariant _).runAll events
    (Workspace.has_parsed Json.storable_of_decode parsed) ready fun command there =>
      Command.keeps_of_editable Json.editable_storable fun position path value same =>
        (decodes position path value (same ▸ there)).elim fun _ decoded =>
          Json.storable_of_decode decoded).workspace.documents
  intro workspace
  constructor
  · intro document there
    rcases storable document there with ⟨value, isHeld, valueStorable⟩
    exact ⟨value, isHeld.value, isHeld.readsBack valueStorable, isHeld.refused valueStorable⟩
  · intro sourcesReadBack setsReadBack document there
    have startReadBack : Workspace.Has Json.DoublesReadBack (fun _ => True) ⟨documents, []⟩ := by
      refine ⟨fun document there => ?_, List.forall_mem_nil _⟩
      rcases parsed document there with ⟨source, accepted⟩
      rcases Document.holds_parse accepted with ⟨value, _, isHeld⟩
      exact ⟨value, isHeld, sourcesReadBack document there value isHeld.value⟩
    have readBack := ((Json.editable_doublesReadBack.inherited.invariant _).runAll events
      startReadBack ready fun command there =>
        Command.keeps_of_editable Json.editable_doublesReadBack fun position path value same =>
          (setsReadBack position path value (same ▸ there)).1).workspace.documents
    have within := (((Json.inherited_nestsWithin _).invariant _).runAll events
      (Workspace.has_parsed Json.nestsWithin_of_decode parsed) ready fun command there =>
        Command.keeps_nestsWithin fun position path value same =>
          (setsReadBack position path value (same ▸ there)).2).workspace.documents
    rcases storable document there with ⟨value, isHeld, valueStorable⟩
    exact isHeld.readsBack valueStorable (isHeld.of_has (readBack document there))
      (isHeld.of_has (within document there))

/-- A member of a member that is created on the way, and a view of what has been created. What is
set is a half, which is read exactly. -/
theorem written_documents_read_back_graft :
    let half : FiniteDouble := ⟨false, 1 <<< 1073, by decide +kernel⟩
    let value := Json.number (.double half)
    let events := [Event.command (.document 0 (.operation (.set "/a/b" value))),
      .command (.document 0 (.operation (.view "/a")))]
    ∃ document, Document.parse (Utf8.encode "\x7b\x7d".toList) = .ok document ∧
      (∃ source, Json.decode source = .ok value) ∧ value.DoublesReadBack ∧ value.FitsAt "/a/b" ∧
      ∀ changed ∈ (((Workspace.mk [document] []).run events).run
        (Session.start .standard)).1.2.documents, changed.ReadsBack := by
  intro half value events
  have decoded : Json.decode (Utf8.encode "\x7b\x7d".toList) = .ok (.object []) := by cbv
  have parsed := Document.parse_of_ok decoded
  have readsBack : Number.ReadsBack (.double half) := by
    have text : half.shortest.write = [] ++ (['0'] ++ (['.', '5'] ++ [])) := by decide +kernel
    have parts : Json.NumberParts half.shortest.write ⟨false, ['0'], some ['5'], none⟩ := by
      rw [text]
      refine .intro rfl ?_ (.some ?_) .none <;> simp [Json.WholeText, Json.DigitText]
    refine Number.readsBack_of_isShort parts ?_
    constructor <;> decide +kernel
  have fits : value.FitsAt "/a/b" := by
    have way : Query.parse "/a/b" = .ok ⟨[⟨.field "a", []⟩, ⟨.field "b", []⟩]⟩ := by cbv
    intro query segments isQuery isDirect
    cases way.symm.trans isQuery
    cases isDirect
    exact ⟨0, rfl, by decide⟩
  have onlySet {position : Nat} {path : String} {other : Json}
      (there : .document position (.operation (.set path other)) ∈ Event.commands events) :
      path = "/a/b" ∧ other = value := by
    rcases List.mem_pair.mp there with same | same
    · cases same
      exact ⟨rfl, rfl⟩
    · cases same
  refine ⟨_, parsed, ⟨_, readsBack⟩, .double readsBack, fits, ?_⟩
  refine (written_documents_read_back (List.forall_mem_singleton.mpr ⟨_, parsed⟩)
    (QueryCache.faithful_empty _) ?_).2 (List.forall_mem_singleton.mpr fun held isHeld => ?_) ?_
  · intro position path other there
    rcases onlySet there with ⟨rfl, rfl⟩
    exact ⟨_, readsBack⟩
  · rcases Document.holds_parse parsed with ⟨found, same, holds⟩
    cases decoded.symm.trans same
    cases holds.value.symm.trans isHeld
    exact .object (List.forall_mem_nil _)
  · intro position path other there
    rcases onlySet there with ⟨rfl, rfl⟩
    exact ⟨.double readsBack, fits⟩

/-! ## Values that nest too deeply -/

/-- An array around an array and so on, around nothing. -/
def Json.nested : (levels : Nat) → Json
  | 0 => .null
  | levels + 1 => .array [nested levels]

theorem Json.storable_nested (levels : Nat) : (nested levels).Storable := by
  induction levels with
  | zero => exact .null
  | succ levels induction => exact .array (List.forall_mem_singleton.mpr induction)

theorem Json.doublesReadBack_nested (levels : Nat) : (nested levels).DoublesReadBack := by
  induction levels with
  | zero => exact .null
  | succ levels induction => exact .array (List.forall_mem_singleton.mpr induction)

theorem Json.nestsWithin_nested_iff {levels limit : Nat} :
    (nested levels).NestsWithin limit ↔ levels ≤ limit := by
  induction levels generalizing limit with
  | zero => exact iff_of_true (nestsWithin_of_not_container rfl) (Nat.zero_le limit)
  | succ levels induction =>
      constructor
      · intro within
        rcases within.elements with ⟨less, rfl, each⟩
        exact Nat.succ_le_succ (induction.mp (List.forall_mem_singleton.mp each))
      · intro enough
        rcases Nat.exists_eq_add_of_lt enough with ⟨more, rfl⟩
        exact List.forall_mem_singleton.mpr (induction.mpr (Nat.le_add_right levels more))

/-- A value that nests as deeply as texts may is put into a member, and the text that the document
then writes is refused. -/
theorem deep_write_not_read_back :
    ∃ document changed, Document.parse (Utf8.encode "\x7b\x7d".toList) = .ok document ∧
      (∃ source, Json.decode source = .ok (Json.nested 127)) ∧
      ((document.set "/a" (Json.nested 127)).run (Session.start .standard)).1 =
        (.ok (), changed) ∧
      changed.value = .ok (.object [("a", Json.nested 127)]) ∧
      ∃ detail, Document.parse changed.bytes = .error (.invalidInput detail) := by
  have decoded : Json.decode (Utf8.encode "\x7b\x7d".toList) = .ok (.object []) := by cbv
  have parsed : Document.parse (Utf8.encode "\x7b\x7d".toList) =
      .ok ⟨.raw (Utf8.encode "\x7b\x7d".toList), false, false⟩ :=
    Document.parse_of_ok decoded
  have held : Document.value ⟨.raw (Utf8.encode "\x7b\x7d".toList), false, false⟩ =
      .ok (.object []) := by
    rcases Document.holds_parse parsed with ⟨value, same, holds⟩
    rw [decoded] at same
    cases same
    exact holds.value
  have way : (Session.start .standard).settings.way "/a" = .ok [.key "a"] := by
    have spelled : Query.parse "/a" = .ok ⟨[⟨.field "a", []⟩]⟩ := by cbv
    rw [Settings.way, Settings.query_eq_parse (QueryCache.faithful_empty _), spelled]
    rfl
  have written (value : Json) : Json.set value "/a" [.key "a"] (.object []) =
      (.ok (), .object [("a", value)]) := rfl
  have storable : (Json.object [("a", Json.nested 127)]).Storable :=
    .object (List.nodup_singleton "a") (List.forall_mem_singleton.mpr (Json.storable_nested 127))
  have deep : ¬(Json.object [("a", Json.nested 127)]).NestsWithin Json.nestingLimit := by
    intro within
    have inside := List.forall_mem_singleton.mp within
    exact absurd (Json.nestsWithin_nested_iff.mp inside) (by decide)
  have changedHolds := Document.holds_ofValue (.object [("a", Json.nested 127)])
  refine ⟨_, .ofValue (.object [("a", Json.nested 127)]), parsed, ?_, ?_, changedHolds.value,
    changedHolds.refused storable deep⟩
  · have within := Json.nestsWithin_nested_iff.mpr (Nat.le_refl 127)
    exact ⟨_, (Json.storable_nested 127).decode_write (Json.doublesReadBack_nested 127) within⟩
  · rw [Document.set, (Document.edit_answer _ "/a" (Session.start .standard) _).1, way,
      Document.editAnswer, if_neg Bool.false_ne_true, held]
    dsimp only
    rw [written]
    rfl

end JsonQuery
