import JsonQuery.Proofs.Source.Containment

/-!
The texts that the scanner cuts a value into. Where a text that is decoded stands in a source, the
scanner finds its end, and the items of a container are exactly the texts that the grammar lists
between its brackets, whatever blanks, escapes and nesting there are inside.
-/

namespace JsonQuery

namespace Json

/-! ## Texts of items -/

def ElementText (text part : List Char) : Prop :=
  part = text ∧ ∃ tree, Spells nestingLimit text tree

inductive MemberText : List Char → List Char × List Char → Prop
  | intro {quotedName before after text : List Char} {name : String} {value : Json}
      (named : Quoted quotedName name) (blanksBefore : Blanks before) (blanksAfter : Blanks after)
      (spelled : Spells nestingLimit text value) :
      MemberText (quotedName ++ (before ++ ':' :: (after ++ text))) (quotedName, text)

inductive ArrayTexts : List UInt8 → List (List UInt8) → Prop
  | intro {inside : List Char} {parts : List (List Char)}
      (filled : Inside ElementText inside parts) :
      ArrayTexts (Utf8.encode ('[' :: (inside ++ [']']))) (parts.map Utf8.encode)

inductive ObjectTexts : List UInt8 → List (List UInt8 × List UInt8) → Prop
  | intro {inside : List Char} {parts : List (List Char × List Char)}
      (filled : Inside MemberText inside parts) :
      ObjectTexts (Utf8.encode ('{' :: (inside ++ ['}'])))
        (parts.map fun part => (Utf8.encode part.1, Utf8.encode part.2))

theorem ElementText.begins (text part : List Char) (element : ElementText text part) :
    Begins text := by
  rcases element with ⟨_, tree, spelled⟩
  exact Spells.begins _ _ _ spelled

theorem MemberText.begins (text : List Char) (part : List Char × List Char)
    (member : MemberText text part) : Begins text := by
  cases member with
  | intro named blanksBefore blanksAfter spelled =>
      exact Member.begins _ _ (.intro named blanksBefore blanksAfter spelled)

section Inside

variable {α β : Type} {spells : List Char → α → Prop} {other : List Char → β → Prop}
  {related : β → α → Prop}

theorem Listing.exists_related
    (each : ∀ text value, spells text value → ∃ part, other text part ∧ related part value)
    {text : List Char} {values : List α} (listed : Listing spells text values) :
    ∃ parts, Listing other text parts ∧ List.Forall₂ related parts values := by
  induction listed with
  | last blanksBefore spelled blanksAfter =>
      rcases each _ _ spelled with ⟨part, isPart, same⟩
      exact ⟨[part], .last blanksBefore isPart blanksAfter, .cons same .nil⟩
  | more blanksBefore spelled blanksAfter others induction =>
      rcases each _ _ spelled with ⟨part, isPart, same⟩
      rcases induction with ⟨parts, areParts, all⟩
      exact ⟨part :: parts, .more blanksBefore isPart blanksAfter areParts, .cons same all⟩

theorem Inside.exists_related
    (each : ∀ text value, spells text value → ∃ part, other text part ∧ related part value)
    {text : List Char} {values : List α} (filled : Inside spells text values) :
    ∃ parts, Inside other text parts ∧ List.Forall₂ related parts values := by
  cases filled with
  | empty isBlanks => exact ⟨[], .empty isBlanks, .nil⟩
  | items listed =>
      rcases listed.exists_related each with ⟨parts, areParts, all⟩
      exact ⟨parts, .items areParts, all⟩

end Inside

theorem Quoted.decode {text : List Char} {content : String} (quoted : Quoted text content) :
    Json.decode (Utf8.encode text) = .ok (.string content) :=
  Spells.decode (Nat.zero_le _) (Scalar.string quoted)

theorem Spells.exists_arrayTexts {text : List Char} {trees : List Json}
    (spelled : Spells nestingLimit text (.array trees)) :
    ∃ parts, ArrayTexts (Utf8.encode text) parts ∧
      List.Forall₂ (fun part tree => Json.decode part = .ok tree.merged) parts trees := by
  have each (text : List Char) (tree : Json) (spelled : Spells nestingLimit text tree) :
      ∃ part, ElementText text part ∧ Json.decode (Utf8.encode part) = .ok tree.merged :=
    ⟨text, ⟨rfl, tree, spelled⟩, spelled.decode (Nat.le_refl _)⟩
  cases spelled.composite rfl with
  | array filled =>
      rcases filled.exists_related each with ⟨parts, areParts, all⟩
      exact ⟨_, .intro areParts, List.forall₂_map_left_iff.mpr all⟩

theorem Spells.exists_objectTexts {text : List Char} {trees : List (String × Json)}
    (spelled : Spells nestingLimit text (.object trees)) :
    ∃ parts, ObjectTexts (Utf8.encode text) parts ∧
      List.Forall₂ (fun part member => Json.decode part.1 = .ok (.string member.1) ∧
        Json.decode part.2 = .ok member.2.merged) parts trees := by
  have each (text : List Char) (member : String × Json)
      (spelled : Member (Spells nestingLimit) text member) :
      ∃ part, MemberText text part ∧
        Json.decode (Utf8.encode part.1) = .ok (.string member.1) ∧
        Json.decode (Utf8.encode part.2) = .ok member.2.merged := by
    cases spelled with
    | intro named blanksBefore blanksAfter spelled =>
        exact ⟨_, .intro named blanksBefore blanksAfter spelled, named.decode,
          spelled.decode (Nat.le_refl _)⟩
  cases spelled.composite rfl with
  | object filled =>
      rcases filled.exists_related each with ⟨parts, areParts, all⟩
      exact ⟨_, .intro areParts, List.forall₂_map_left_iff.mpr all⟩

/-! ## Texts without blanks around them -/

def Bare (text : List UInt8) : Prop :=
  (∀ byte ∈ text.head?, Scanner.isBlank byte = false) ∧
    ∀ byte ∈ text.getLast?, Scanner.isBlank byte = false

theorem exists_spells_of_bare {text : List UInt8} {value : Json}
    (accepted : Json.decode text = .ok value) (bare : Bare text) :
    ∃ characters tree, text = Utf8.encode characters ∧ Spells nestingLimit characters tree ∧
      value = tree.merged := by
  rcases decode_eq_ok_iff.mp accepted with ⟨_, tree, rfl, ⟨blanksBefore, spelled, blanksAfter⟩, rfl⟩
  rename_i before characters after
  -- A blank on either side would be the first or the last byte of the whole text.
  have nothingBefore : before = [] := by
    cases encoded : Utf8.encode before with
    | nil => exact Utf8.encode_injective encoded
    | cons byte bytes =>
        have blank := Scanner.isBlank_of_mem_encode blanksBefore byte (by simp [encoded])
        have notBlank := bare.1 byte (by simp [Utf8.encode_append, encoded])
        rw [blank] at notBlank
        cases notBlank
  have nothingAfter : after = [] := by
    rcases List.eq_nil_or_concat (Utf8.encode after) with nothing | ⟨bytes, byte, encoded⟩
    · exact Utf8.encode_injective nothing
    · have blank := Scanner.isBlank_of_mem_encode blanksAfter byte (by simp [encoded])
      have notBlank := bare.2 byte (by simp [Utf8.encode_append, encoded])
      rw [blank] at notBlank
      cases notBlank
  rw [nothingBefore, nothingAfter, List.nil_append, List.append_nil]
  exact ⟨characters, tree, rfl, spelled, rfl⟩

end Json

namespace Span

open Scanner (Stops)

/-! ## Items and their texts -/

theorem finds_elementText : Finds at? id Json.ElementText
    fun span part => span.bytes = Utf8.encode part := by
  rintro text _ rest start ⟨rfl, tree, spelled⟩ stops
  exact ⟨_, at?_spells spelled stops start, List.take_left, Nat.le_refl _,
    length_encode_pos (Json.Spells.begins _ _ _ spelled), rfl, List.drop_left⟩

theorem finds_memberText : Finds memberAt? Prod.snd Json.MemberText
    fun written part =>
      (written.1, written.2.bytes) = (Utf8.encode part.1, Utf8.encode part.2) := by
  rintro _ _ rest start ⟨named, blanksBefore, blanksAfter, spelled⟩ stops
  rcases finds_memberAt _ _ rest start (.intro named blanksBefore blanksAfter spelled) stops with
    ⟨found, located, _, ends⟩
  have read := memberAt?_spells named blanksBefore blanksAfter spelled stops start
  refine ⟨found, located, ?_, ends⟩
  cases located.symm.trans read
  exact congrArg _ List.take_left

variable {span : Span} {rest text : List UInt8}

theorem elements_of_arrayTexts {parts : List (List UInt8)} (texts : Json.ArrayTexts text parts)
    (sameText : span.text = text ++ rest) (sameSize : span.size = text.length) :
    span.elements.map bytes = parts := by
  cases texts with
  | intro filled =>
      rw [Scanner.encode_array] at sameText sameSize
      have isArray : span.kind = .array := by
        rw [kind, sameText]
        rfl
      have found := items_between (by decide) finds_elementText Json.ElementText.begins
        (at?_closing (by decide)) filled sameText sameSize
      rw [Span.elements, isArray]
      exact map_eq_iff_forall₂.mpr found.1

theorem members_of_objectTexts {parts : List (List UInt8 × List UInt8)}
    (texts : Json.ObjectTexts text parts) (sameText : span.text = text ++ rest)
    (sameSize : span.size = text.length) :
    (span.members.map fun written => (written.1, written.2.bytes)) = parts := by
  cases texts with
  | intro filled =>
      rw [Scanner.encode_object] at sameText sameSize
      have isObject : span.kind = .object := by
        rw [kind, sameText]
        rfl
      have found := items_between (by decide) finds_memberText Json.MemberText.begins
        memberAt?_closing filled sameText sameSize
      rw [Span.members, isObject]
      exact map_eq_iff_forall₂.mpr found.1

theorem nameMatches_iff_decode {quoted : List Char} {content : String}
    (isQuoted : Json.Quoted quoted content) (name : String) :
    nameMatches (Utf8.encode quoted) name = true ↔
      Json.decode (Utf8.encode quoted) = .ok (.string name) := by
  rw [nameMatches_iff isQuoted, isQuoted.decode, Except.ok.injEq, Json.string.injEq]

/-! ## Values in a source -/

structure YieldsElements (span : Span) (text : List UInt8) (trees : List Json) : Prop where
  iterates : Iterates at? id (span.start + 1) (span.text.drop 1) span.elements
  written : ∃ parts, Json.ArrayTexts text parts ∧
    List.Forall₂ (fun part tree => Json.decode part = .ok tree) parts trees
  exact : ∀ parts, Json.ArrayTexts text parts → span.elements.map bytes = parts

/-- The search for members yields exactly the texts of names and values that are written. Those that
repeat a name are merged only in the object that is decoded. -/
structure YieldsMembers (span : Span) (text : List UInt8) (trees : List (String × Json)) :
    Prop where
  iterates : Iterates memberAt? Prod.snd (span.start + 1) (span.text.drop 1) span.members
  written : ∃ parts members, Json.ObjectTexts text parts ∧
    List.Forall₂ (fun part member => Json.decode part.1 = .ok (.string member.1) ∧
      Json.decode part.2 = .ok member.2) parts members ∧
    trees = Json.mergeMembers members
  exact : ∀ parts, Json.ObjectTexts text parts →
    (span.members.map fun written => (written.1, written.2.bytes)) = parts
  names : ∀ member ∈ span.members, ∀ name, nameMatches member.1 name = true ↔
    Json.decode member.1 = .ok (.string name)

structure Covers (source : List UInt8) (start : Nat) (text : List UInt8) (value : Json)
    (span : Span) : Prop where
  ends : Scanner.valueSize? (source.drop start) = some text.length
  found : at? start (source.drop start) = some span
  bytes : span.bytes = text
  children : ∀ child ∈ span.children, child.bytes = (source.drop child.start).take child.size
  elements : ∀ trees, value = .array trees → span.YieldsElements text trees
  members : ∀ trees, value = .object trees → span.YieldsMembers text trees

section Yields

variable {source : List UInt8} {characters : List Char}

theorem yieldsElements {trees : List Json} (of : span.Of source)
    (spelled : Json.Spells Json.nestingLimit characters (.array trees))
    (sameText : span.text = Utf8.encode characters ++ rest)
    (sameSize : span.size = (Utf8.encode characters).length) :
    span.YieldsElements (Utf8.encode characters) (trees.map Json.merged) where
  iterates := by
    have held : span.Holds (.array trees) := ⟨characters, rest, spelled, sameText, sameSize⟩
    exact (of.elements held.kind).2.1
  written := by
    rcases spelled.exists_arrayTexts with ⟨parts, areParts, all⟩
    exact ⟨parts, areParts, List.forall₂_map_right_iff.mpr all⟩
  exact _ texts := elements_of_arrayTexts texts sameText sameSize

theorem yieldsMembers {trees : List (String × Json)} (of : span.Of source)
    (spelled : Json.Spells Json.nestingLimit characters (.object trees))
    (sameText : span.text = Utf8.encode characters ++ rest)
    (sameSize : span.size = (Utf8.encode characters).length) :
    span.YieldsMembers (Utf8.encode characters)
      (Json.mergeMembers (trees.map fun member => (member.1, member.2.merged))) := by
  have held : span.Holds (.object trees) := ⟨characters, rest, spelled, sameText, sameSize⟩
  refine ⟨(of.members held.kind).2.1, ?_, ?_, ?_⟩
  · rcases spelled.exists_objectTexts with ⟨parts, areParts, all⟩
    exact ⟨parts, _, areParts, List.forall₂_map_right_iff.mpr all, rfl⟩
  · exact fun _ texts => members_of_objectTexts texts sameText sameSize
  · intro member there name
    rcases exists_of_mem_rel held.members.1 there with ⟨_, _, ⟨quoted, isQuoted, same⟩, _⟩
    rw [same]
    exact nameMatches_iff_decode isQuoted name

theorem covers_of_spells {start : Nat} {tree : Json}
    (spelled : Json.Spells Json.nestingLimit characters tree) (stops : Stops rest)
    (stands : source.drop start = Utf8.encode characters ++ rest) :
    Covers source start (Utf8.encode characters) tree.merged
      ⟨start, Utf8.encode characters ++ rest, (Utf8.encode characters).length⟩ := by
  have located := at?_spells spelled stops start
  rw [← stands] at located
  have of := (of_at located).1
  rw [stands] at located of
  refine ⟨?_, by rw [stands, located], List.take_left, ?_, ?_, ?_⟩
  · rw [stands]
    exact Scanner.valueSize?_spells _ spelled stops
  · intro child there
    rw [bytes, (of.children.1 child there).text]
  -- Merging repeated names changes no kind, so the tree that is spelled is a container as well.
  · intro trees same
    cases tree with
    | array inner =>
        rw [Json.merged, Json.mergedElements_eq_map, Json.array.injEq] at same
        rw [← same]
        exact yieldsElements of spelled rfl rfl
    | null | bool | number | string | object => cases same
  · intro trees same
    cases tree with
    | object inner =>
        rw [Json.merged, Json.mergedMembers_eq_map, Json.object.injEq] at same
        rw [← same]
        exact yieldsMembers of spelled rfl rfl
    | null | bool | number | string | array => cases same

end Yields

/-- Wherever the text of a value stands in a source, and whatever stands around it but for a byte
that goes on with a number, the scanner finds its end, the texts of its elements or of its names and
values, each in the order in which they are written, and compares names as they are decoded. -/
theorem covers_value {before text rest : List UInt8} {value : Json}
    (accepted : Json.decode text = .ok value) (bare : Json.Bare text) (stops : Stops rest) :
    ∃ span, Covers (before ++ (text ++ rest)) before.length text value span := by
  rcases Json.exists_spells_of_bare accepted bare with ⟨characters, tree, rfl, spelled, rfl⟩
  exact ⟨_, covers_of_spells spelled stops List.drop_left⟩

theorem covers_value_escaped :
    let name := ['"', '\\', 'u', '0', '0', '6', '1', '"']
    let array := ['[', '1', ',', ' ', '"', ']', '"', ' ', ']']
    let text := Utf8.encode ('{' :: (name ++ [':'] ++ array ++ ['}']))
    let value : Json := .object [("a", .array [.number (.integer 1), .string "]"])]
    ∃ span, Covers ([0x5B] ++ (text ++ [0x7D])) 1 text value span ∧
      (span.members.map fun written => (written.1, written.2.bytes)) =
        [(Utf8.encode name, Utf8.encode array)] ∧
      nameMatches (Utf8.encode name) "a" = true := by
  intro name array text value
  have decoded : Json.decode text = .ok value := by cbv
  have bare : Json.Bare text := by
    constructor <;> rintro byte ⟨⟩ <;> rfl
  have stops : Stops [0x7D] := by
    rintro byte ⟨⟩
    rfl
  have covered : ∃ span, Covers ([0x5B] ++ (text ++ [0x7D])) 1 text value span :=
    covers_value decoded bare stops
  rcases covered with ⟨span, covers⟩
  have located : at? 1 (([0x5B] ++ (text ++ [0x7D])).drop 1) = some ⟨1, text ++ [0x7D], 20⟩ := by
    cbv
  have same := Option.some.inj (located.symm.trans covers.found)
  have listed : (span.members.map fun written => (written.1, written.2.bytes)) =
      [(Utf8.encode name, Utf8.encode array)] := by
    rw [← same]
    cbv
  refine ⟨span, covers, listed, ?_⟩
  rcases List.map_eq_singleton_iff.mp listed with ⟨member, single, sameTexts⟩
  have there : member ∈ span.members := by
    rw [single]
    exact List.mem_singleton_self member
  rw [← (Prod.mk.inj sameTexts).1]
  apply ((covers.members _ rfl).names member there "a").mpr
  rw [(Prod.mk.inj sameTexts).1]
  cbv

end Span

end JsonQuery
