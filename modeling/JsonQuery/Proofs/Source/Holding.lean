import JsonQuery.Proofs.Json.Merging
import JsonQuery.Proofs.Relation
import JsonQuery.Proofs.Source.Spans

/-!
Spans that hold values of the grammar. Whatever a span is asked (its type, its value, its members
and elements) it answers as the tree that its text spells, although nothing but the value itself is
ever decoded.
-/

namespace JsonQuery.Span

/-- The text of a span begins with a text that spells a tree, and that text is its size. -/
def Holds (span : Span) (tree : Json) : Prop :=
  ∃ text rest, Json.Spells Json.nestingLimit text tree ∧
    span.text = Utf8.encode text ++ rest ∧ span.size = (Utf8.encode text).length

/-- A member as it is written has a name, and its value is related to that of the member. -/
def Named {α : Type} (related : Span → α → Prop) (written : List UInt8 × Span)
    (member : String × α) : Prop :=
  (∃ quoted, Json.Quoted quoted member.1 ∧ written.1 = Utf8.encode quoted) ∧
    related written.2 member.2

/-! ## The value itself -/

theorem Holds.decode {span : Span} {tree : Json} (held : Holds span tree) :
    span.decode = .ok tree.merged := by
  rcases held with ⟨text, rest, spelled, sameText, sameSize⟩
  have alone : span.bytes = Utf8.encode text := by
    rw [bytes, sameText, sameSize, List.take_left]
  rw [Span.decode, alone, spelled.decode (Nat.le_refl _)]
  rfl

theorem kind_of_number {byte : UInt8} (isNumber : Scanner.isNumberByte byte = true)
    {start size : Nat} {text : List UInt8} : kind ⟨start, byte :: text, size⟩ = .number := by
  have other : ∀ mark, Scanner.isNumberByte mark = false → (byte == mark) = false := by
    intro mark notNumber
    rw [beq_eq_false_iff_ne]
    rintro rfl
    rw [isNumber] at notNumber
    cases notNumber
  simp [kind, other 0x7B (by decide), other 0x5B (by decide), other Scanner.quote (by decide),
    other 0x74 (by decide), other 0x66 (by decide), other 0x6E (by decide)]

theorem Holds.kind {span : Span} {tree : Json} (held : Holds span tree) :
    span.kind = tree.kind := by
  rcases span with ⟨start, spanText, size⟩
  rcases held with ⟨text, rest, spelled, sameText, sameSize⟩
  dsimp only at sameText
  rw [sameText]
  rcases spelled with scalar | composite
  · cases scalar with
    | null | true | false => rfl
    | string quoted =>
        rcases Scanner.exists_body_of_quoted quoted with ⟨body, same, inside⟩
        rw [same]
        rfl
    | number parts =>
        have numberBytes := Scanner.encode_numberCharacters (Scanner.NumberParts.characters parts)
        rcases parts.head with ⟨first, others, rfl, begins⟩
        rw [Scanner.encode_cons_ascii (Scanner.valueSize?_number begins).1] at numberBytes ⊢
        exact kind_of_number (numberBytes _ List.mem_cons_self)
  · cases composite with
    | array inside =>
        rw [Scanner.encode_array]
        rfl
    | object inside =>
        rw [Scanner.encode_object]
        rfl

/-! ## Finding values and members -/

theorem at?_closing {close : UInt8} (closes : Scanner.isClosing close = true) (start : Nat)
    (rest : List UInt8) : at? start (close :: rest) = none := by
  simp only [Scanner.isClosing, Bool.or_eq_true, beq_iff_eq] at closes
  rcases closes with rfl | rfl <;> rfl

theorem memberAt?_closing (start : Nat) (rest : List UInt8) :
    memberAt? start (0x7D :: rest) = none := rfl

theorem length_encode_pos {text : List Char} (begins : Json.Begins text) :
    0 < (Utf8.encode text).length := by
  rcases begins with ⟨first, others, rfl, _⟩
  exact Nat.lt_of_lt_of_le (Nat.succ_pos _) (Utf8.length_le_length_encode (first :: others))

theorem at?_spells {levels : Nat} {text : List Char} {tree : Json}
    (spelled : Json.Spells levels text tree) {rest : List UInt8} (stops : Scanner.Stops rest)
    (start : Nat) : at? start (Utf8.encode text ++ rest) =
      some ⟨start, Utf8.encode text ++ rest, (Utf8.encode text).length⟩ := by
  rw [at?, Scanner.valueSize?_spells _ spelled stops]
  rfl

theorem finds_at : Finds at? id (Json.Spells Json.nestingLimit) Holds := by
  intro text tree rest start spelled stops
  exact ⟨_, at?_spells spelled stops start, ⟨text, rest, spelled, rfl, rfl⟩, Nat.le_refl _,
    length_encode_pos (Json.Spells.begins _ _ _ spelled), rfl, List.drop_left⟩

/-- The scanner reads a member as it is written: quotes, a colon, and the value behind it. -/
theorem memberAt?_quote {body before after : List UInt8} (inside : Scanner.StringBytes body)
    (blanksBefore : ∀ rest, Scanner.blanks (before ++ Scanner.colon :: rest) = before.length)
    {value : List UInt8} (blanksAfter : Scanner.blanks (after ++ value) = after.length)
    (start : Nat) :
    memberAt? start (Scanner.quote :: (body ++ Scanner.quote ::
        (before ++ Scanner.colon :: (after ++ value)))) =
      (at? (start + 1 + (body.length + 1) + before.length + 1 + after.length) value).map
        fun found => (Scanner.quote :: (body ++ [Scanner.quote]), found) := by
  have regroup (rest : List UInt8) :
      body ++ Scanner.quote :: rest = (body ++ [Scanner.quote]) ++ rest := by
    simp
  have nameSize := Scanner.stringSize?_append inside (before ++ Scanner.colon :: (after ++ value))
  rw [memberAt?, if_pos (beq_self_eq_true _), nameSize]
  simp only [Option.bind_eq_bind, Option.bind_some]
  rw [regroup, List.drop_left' (by simp), List.take_left' (by simp), blanksBefore,
    List.drop_left]
  simp only [beq_self_eq_true, if_true, blanksAfter, List.drop_left]

theorem memberAt?_spells {quotedName before after text : List Char} {name : String} {value : Json}
    {levels : Nat} (named : Json.Quoted quotedName name) (blanksBefore : Json.Blanks before)
    (blanksAfter : Json.Blanks after) (spelled : Json.Spells levels text value)
    {rest : List UInt8} (stops : Scanner.Stops rest) (start : Nat) :
    memberAt? start (Utf8.encode (quotedName ++ (before ++ ':' :: (after ++ text))) ++ rest) =
      some (Utf8.encode quotedName,
        ⟨start + (Utf8.encode (quotedName ++ (before ++ ':' :: after))).length,
          Utf8.encode text ++ rest, (Utf8.encode text).length⟩) := by
  rcases Scanner.exists_body_of_quoted named with ⟨body, sameName, inside⟩
  rcases Scanner.exists_cons_of_begins (Json.Spells.begins _ _ _ spelled) rest with
    ⟨byte, bytes, sameValue, notBlank, _⟩
  have colonEnds (rest : List UInt8) : Scanner.blanks (Utf8.encode before ++
      Scanner.colon :: rest) = (Utf8.encode before).length := by
    rw [Scanner.blanks_append blanksBefore, Scanner.blanks_cons (by decide), Nat.add_zero]
  have valueEnds : Scanner.blanks (Utf8.encode after ++ (Utf8.encode text ++ rest)) =
      (Utf8.encode after).length := by
    rw [Scanner.blanks_append blanksAfter, sameValue, Scanner.blanks_cons notBlank, Nat.add_zero]
  have read := memberAt?_quote inside colonEnds valueEnds start
  rw [at?_spells spelled stops] at read
  simp only [Utf8.encode_append, Scanner.encode_colon, sameName, List.append_assoc,
    List.cons_append, List.nil_append, read, Option.map_some, Option.some.injEq, Prod.mk.injEq,
    true_and, Span.mk.injEq, and_true, List.length_cons, List.length_append]
  omega

theorem finds_memberAt :
    Finds memberAt? Prod.snd (Json.Member (Json.Spells Json.nestingLimit)) (Named Holds) := by
  rintro _ _ rest start ⟨named, blanksBefore, blanksAfter, spelled⟩ stops
  refine ⟨_, memberAt?_spells named blanksBefore blanksAfter spelled stops start,
    ⟨⟨_, named, rfl⟩, ⟨_, rest, spelled, rfl, rfl⟩⟩, Nat.le_add_right _ _,
    length_encode_pos (Json.Spells.begins _ _ _ spelled), ?_, List.drop_left⟩
  simp only [stop, Utf8.encode_append, Scanner.encode_colon, List.length_append, List.length_cons]
  omega

/-! ## Items -/

section Items

variable {α β : Type} {itemAt? : Nat → List UInt8 → Option α} {value : α → Span}
  {spells : List Char → β → Prop} {holds : α → β → Prop}

/-- Behind the opening bracket of a span stand the items that its text lists, and they end before
the closing one. -/
theorem items_between {opening close : UInt8} (closes : Scanner.isClosing close = true)
    (finds : Finds itemAt? value spells holds)
    (begins : ∀ text item, spells text item → Json.Begins text)
    (refuses : ∀ start rest, itemAt? start (close :: rest) = none)
    {inside : List Char} {items : List β} (filled : Json.Inside spells inside items)
    {span : Span} {rest : List UInt8}
    (sameText : span.text = opening :: (Utf8.encode inside ++ [close]) ++ rest)
    (sameSize : span.size = (opening :: (Utf8.encode inside ++ [close])).length) :
    List.Forall₂ holds
        (itemsFrom itemAt? value span.text.length (span.start + 1) (span.text.drop 1)) items ∧
      Chain (span.start + 1)
        ((itemsFrom itemAt? value span.text.length (span.start + 1) (span.text.drop 1)).map value)
        (span.stop - 1) := by
  have behind : span.text.drop 1 = Utf8.encode inside ++ close :: rest := by
    simp [sameText]
  have sameStop : span.stop - 1 = span.start + 1 + (Utf8.encode inside).length := by
    simp only [stop, sameSize, List.length_cons, List.length_append, List.length_nil]
    omega
  have enough : inside.length ≤ span.text.length := by
    have shorter := Utf8.length_le_length_encode inside
    simp only [sameText, List.length_cons, List.length_append]
    omega
  rw [behind, sameStop]
  exact itemsFrom_inside closes finds begins refuses filled rest enough _

end Items

/-- The elements of an array lie between its brackets and hold what the text lists. -/
theorem Holds.elements {span : Span} {trees : List Json} (held : Holds span (.array trees)) :
    List.Forall₂ Holds span.elements trees ∧
      Chain (span.start + 1) span.elements (span.stop - 1) := by
  have isArray : span.kind = .array := held.kind
  rcases held with ⟨text, rest, spelled, sameText, sameSize⟩
  cases spelled.composite rfl with
  | array filled =>
      rw [Scanner.encode_array] at sameText sameSize
      have found := items_between (by decide) finds_at (Json.Spells.begins Json.nestingLimit)
        (at?_closing (by decide)) filled sameText sameSize
      rw [List.map_id] at found
      rw [Span.elements, isArray]
      exact found

/-- The members of an object, repeated ones included. -/
theorem Holds.members {span : Span} {trees : List (String × Json)}
    (held : Holds span (.object trees)) :
    List.Forall₂ (Named Holds) span.members trees ∧
      Chain (span.start + 1) (span.members.map Prod.snd) (span.stop - 1) := by
  have isObject : span.kind = .object := held.kind
  rcases held with ⟨text, rest, spelled, sameText, sameSize⟩
  cases spelled.composite rfl with
  | object filled =>
      rw [Scanner.encode_object] at sameText sameSize
      have found := items_between (by decide) finds_memberAt Json.Member.begins
        memberAt?_closing filled sameText sameSize
      rw [Span.members, isObject]
      exact found

/-! ## Members by name -/

theorem eq_of_no_backslash {body characters : List Char}
    (spelled : Json.StringBody body characters) (plain : '\\' ∉ body) : body = characters := by
  induction spelled with
  | nil => rfl
  | cons first others induction =>
      cases first with
      | plain notQuote notBackslash printable =>
          rw [induction fun member => plain (List.mem_append_right _ member)]
          rfl
      | escape escaped => exact absurd List.mem_cons_self plain

/-- Names are compared as they are decoded, whether or not they had to be decoded for it. -/
theorem nameMatches_iff {quoted : List Char} {content : String}
    (isQuoted : Json.Quoted quoted content) (name : String) :
    nameMatches (Utf8.encode quoted) name = true ↔ content = name := by
  have decoded := isQuoted.decodeString?
  cases isQuoted with
  | @intro body characters spelled =>
      have inner : ((Utf8.encode ('"' :: (body ++ ['"']))).drop 1).dropLast = Utf8.encode body := by
        rw [Scanner.encode_cons_ascii (by decide), Utf8.encode_append]
        exact List.dropLast_concat
      simp only [nameMatches, inner, decoded]
      by_cases escaped : '\\' ∈ body
      · have marked : Scanner.backslash ∈ Utf8.encode body :=
          List.mem_flatMap.mpr ⟨'\\', escaped, by decide⟩
        simp [marked]
      · have unmarked : Scanner.backslash ∉ Utf8.encode body := by
          intro member
          have distinct := Scanner.forall_mem_encode_ne ['\\'] (by simp)
            (fun character inBody => by
              rw [List.mem_singleton]
              rintro rfl
              exact escaped inBody)
          exact distinct _ member '\\' (by decide) rfl
        have same := eq_of_no_backslash spelled escaped
        rw [same] at unmarked ⊢
        simp only [List.contains_iff_mem, unmarked, if_false, beq_iff_eq]
        constructor
        · intro equal
          rw [Utf8.encode_injective equal, String.ofList_toList]
        · rintro rfl
          rw [String.toList_ofList]

/-- A member is found by its decoded name, and of several the last one. -/
theorem field?_rel {α : Type} {related : Span → α → Prop} {span : Span}
    {members : List (String × α)} (all : List.Forall₂ (Named related) span.members members)
    (name : String) : Option.Rel related (span.field? name) (Json.lastMember? name members) := by
  have sameNames : Relator.LiftFun (Named related) (· ↔ ·)
      (fun written => nameMatches written.1 name = true)
      (fun member => decide (member.1 = name) = true) := by
    rintro written member ⟨⟨quoted, isQuoted, same⟩, _⟩
    show nameMatches written.1 name = true ↔ decide (member.1 = name) = true
    rw [same, nameMatches_iff isQuoted, decide_eq_true_iff]
  have last := getLast?_rel (List.rel_filter sameNames all)
  exact optionMap_rel (fun _ _ named => named.2) last

/-! ## Sources -/

/-- The root of a source that is decoded holds the tree that the source spells. -/
theorem exists_root_of_document {text : List Char} {tree : Json}
    (isDocument : Json.DocumentText text tree) :
    ∃ root, root? (Utf8.encode text) = some root ∧ Holds root tree := by
  cases isDocument with
  | @intro before text after tree blanksBefore spelled blanksAfter =>
      have nothing : Scanner.Stops [] := nofun
      have stops := Scanner.stops_blanks blanksAfter nothing
      rw [List.append_nil] at stops
      rcases Scanner.exists_cons_of_begins (Json.Spells.begins _ _ _ spelled)
        (Utf8.encode after) with ⟨byte, bytes, same, notBlank, _⟩
      rcases finds_at text tree (Utf8.encode after) (Utf8.encode before).length spelled stops with
        ⟨root, located, held, _⟩
      refine ⟨root, ?_, held⟩
      rw [root?, Utf8.encode_append, Utf8.encode_append, Scanner.blanks_append blanksBefore, same,
        Scanner.blanks_cons notBlank, Nat.add_zero, ← same]
      simp only [List.drop_left]
      exact located

end JsonQuery.Span
