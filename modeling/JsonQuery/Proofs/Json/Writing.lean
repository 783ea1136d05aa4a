import JsonQuery.Json.Write
import JsonQuery.Proofs.Json.Storing
import JsonQuery.Proofs.Number.Scaling
import JsonQuery.Proofs.Number.Shortest
import JsonQuery.Proofs.Number.Writing

/-!
The compact text of a value spells the value, if the value is one that texts can spell: integers
that texts can hold, doubles that are read back from their own text, and objects that repeat no
name. So it is read back, as long as it nests no deeper than texts may. A deeper one is refused,
whatever its numbers are.
-/

namespace JsonQuery

/-! ## Numbers -/

/-- What is written of the number is decoded to it. -/
def Number.ReadsBack (number : Number) : Prop :=
  Json.decode (Utf8.encode (Json.number number).write) = .ok (.number number)

namespace Json

/-- Every double inside reads back. -/
inductive DoublesReadBack : Json → Prop
  | null : DoublesReadBack .null
  | bool (value : Bool) : DoublesReadBack (.bool value)
  | integer (value : Int) : DoublesReadBack (.number (.integer value))
  | double {value : FiniteDouble} (readsBack : Number.ReadsBack (.double value)) :
      DoublesReadBack (.number (.double value))
  | string (text : String) : DoublesReadBack (.string text)
  | array {elements : List Json} (each : ∀ element ∈ elements, element.DoublesReadBack) :
      DoublesReadBack (.array elements)
  | object {members : List (String × Json)} (each : ∀ member ∈ members, member.2.DoublesReadBack) :
      DoublesReadBack (.object members)

namespace DoublesReadBack

theorem elements {items : List Json} (readsBack : DoublesReadBack (.array items)) :
    ∀ element ∈ items, element.DoublesReadBack := by
  cases readsBack with
  | array each => exact each

theorem members {items : List (String × Json)} (readsBack : DoublesReadBack (.object items)) :
    ∀ member ∈ items, member.2.DoublesReadBack := by
  cases readsBack with
  | object each => exact each

end DoublesReadBack

theorem editable_doublesReadBack : Editable DoublesReadBack where
  element := DoublesReadBack.elements
  member := DoublesReadBack.members
  empty := .object (List.forall_mem_nil _)
  putMember name _ readsBack valueReadsBack :=
    .object (forall_putMember name valueReadsBack readsBack.members)
  setElement index _ readsBack valueReadsBack :=
    .array (forall_setElement index valueReadsBack readsBack.elements)
  fewerElements readsBack fewer :=
    .array fun element there => readsBack.elements element (fewer.subset there)
  fewerMembers readsBack fewer :=
    .object fun member there => readsBack.members member (fewer.subset there)

end Json

theorem ReadsAsDouble.parts {text : List Char} {double : Bool → Double}
    (spells : ReadsAsDouble text double) (negative : Bool) :
    ∃ spelled, Json.NumberParts ((if negative then ['-'] else []) ++ text) spelled ∧
      spelled.integer? = none ∧ spelled.toDecimal.toDouble = double negative := by
  rcases spells with ⟨whole, fractionText, exponentText, fraction, exponent, rfl, isWhole,
    hasFraction, hasExponent, isDouble, read⟩
  refine ⟨⟨negative, whole, fraction, exponent⟩, .intro rfl isWhole hasFraction hasExponent, ?_,
    read negative⟩
  cases fraction with
  | some digits => rfl
  | none =>
      cases exponent with
      | some power => rfl
      | none => cases isDouble

theorem Decimal.write_parts (decimal : Decimal) :
    ∃ spelled, Json.NumberParts decimal.write spelled ∧ spelled.integer? = none ∧
      spelled.toDecimal.toDouble = decimal.toDouble := by
  rcases decimal.write_spells with ⟨text, written, spells⟩
  rw [written]
  exact spells.parts decimal.negative

namespace Json.NumberText

theorem toNumber?_of_integer {number : NumberText} {value : Int}
    (isInteger : number.integer? = some value) : number.toNumber? = some (.integer value) := by
  unfold toNumber?
  rw [isInteger]

theorem toNumber?_of_not_integer {number : NumberText} (notInteger : number.integer? = none) :
    number.toNumber? = number.toDouble?.map .double := by
  unfold toNumber?
  rw [notInteger]

end Json.NumberText

namespace Number

theorem integer_parts {value : Int} (storable : holdsInteger value = true) :
    ∃ spelled, Json.NumberParts (Digits.ofInt value) spelled ∧
      spelled.toNumber? = some (.integer value) := by
  have isWhole := Digits.wholeText_ofNat value.natAbs
  have size := Lexer.toNat_ofNat value.natAbs
  have parts (negative : Bool) : Json.NumberParts
      ((if negative then ['-'] else []) ++ (Digits.ofNat value.natAbs ++ ([] ++ [])))
      ⟨negative, Digits.ofNat value.natAbs, none, none⟩ :=
    .intro rfl isWhole .none .none
  have read {negative : Bool} (isNegative : negative = true ↔ value < 0) :
      Json.NumberText.integer? ⟨negative, Digits.ofNat value.natAbs, none, none⟩ = some value := by
    have signed : (if negative then -(value.natAbs : Int) else value.natAbs) = value := by
      split
      next isTrue =>
        have below := isNegative.mp isTrue
        omega
      next isFalse =>
        have notBelow : ¬value < 0 := fun below => isFalse (isNegative.mpr below)
        omega
    have notNegativeZero : ¬(negative = true ∧ (value.natAbs : Int) = 0) := by
      rintro ⟨isTrue, isZero⟩
      have below := isNegative.mp isTrue
      omega
    simp only [Json.NumberText.integer?, size, signed]
    exact if_pos ⟨storable, notNegativeZero⟩
  have toNumber {negative : Bool} (isNegative : negative = true ↔ value < 0) :
      Json.NumberText.toNumber? ⟨negative, Digits.ofNat value.natAbs, none, none⟩ =
        some (.integer value) :=
    Json.NumberText.toNumber?_of_integer (read isNegative)
  rw [Digits.ofInt]
  split
  next below =>
    have spelled := parts true
    rw [List.append_nil, List.append_nil] at spelled
    exact ⟨_, spelled, toNumber (iff_of_true rfl below)⟩
  next notBelow =>
    have spelled := parts false
    rw [List.append_nil, List.append_nil] at spelled
    exact ⟨_, spelled, toNumber (iff_of_false Bool.false_ne_true notBelow)⟩

theorem write_parts {number : Number} (storable : number.isStorable = true) :
    ∃ spelled, Json.NumberParts number.write spelled := by
  cases number with
  | integer value =>
      rcases integer_parts storable with ⟨spelled, parts, _⟩
      exact ⟨spelled, parts⟩
  | double value =>
      rcases value.shortest.write_parts with ⟨spelled, parts, _⟩
      exact ⟨spelled, parts⟩

theorem readsBack_iff {number : Number} {spelled : Json.NumberText}
    (parts : Json.NumberParts number.write spelled) :
    number.ReadsBack ↔ spelled.toNumber? = some number := by
  rw [ReadsBack, Json.write, parts.decode]
  cases spelled.toNumber? <;> simp

theorem readsBack_integer {value : Int} (storable : holdsInteger value = true) :
    (integer value).ReadsBack := by
  rcases integer_parts storable with ⟨spelled, parts, read⟩
  have written : Json.NumberParts (integer value).write spelled := parts
  exact (readsBack_iff written).mpr read

/-- A double reads back if what is written of it is short enough to be read exactly. -/
theorem readsBack_of_isShort {value : FiniteDouble} {spelled : Json.NumberText}
    (parts : Json.NumberParts (double value).write spelled) (short : spelled.IsShort) :
    (double value).ReadsBack := by
  refine (readsBack_iff parts).mpr ?_
  rcases value.shortest.write_parts with ⟨other, otherParts, notInteger, nearest⟩
  have nearestToItself : value.shortest.toDouble = .finite value := value.readsBack_shortest
  have read := Json.readNumberText_complete otherParts Json.Stops.nil
  cases read.symm.trans (Json.readNumberText_complete parts Json.Stops.nil)
  rw [Json.NumberText.toNumber?_of_not_integer notInteger,
    Json.NumberText.toDouble?_exact short, nearest, nearestToItself]
  rfl

theorem scalar {number : Number} (storable : number.isStorable = true)
    (readsBack : Json.DoublesReadBack (.number number)) :
    Json.Scalar number.write (.number number) := by
  have holds : number.ReadsBack := by
    cases readsBack with
    | integer value => exact readsBack_integer storable
    | double readsBack => exact readsBack
  rcases write_parts storable with ⟨spelled, parts⟩
  exact .number parts ((readsBack_iff parts).mp holds)

end Number

namespace Json

/-! ## Strings -/

/-- The four digits of a control character spell its code. -/
theorem codeUnit?_control : ∀ code < 0x20,
    codeUnit? '0' '0' (Nat.digitChar (code / 16)) (Nat.digitChar (code % 16)) = some code ∧
      isHighSurrogate code = false ∧ isLowSurrogate code = false := by
  decide

theorem escape_spells (character : Char) : CharacterText (escape character) character := by
  have named {code : Nat} (same : character.toNat = code) : Char.ofNat code = character := by
    rw [← same, Char.ofNat_toNat]
  unfold escape
  split
  next isQuote =>
    rw [isQuote]
    exact .escape (.simple rfl)
  next notQuote =>
    split
    next isBackslash =>
      rw [isBackslash]
      exact .escape (.simple rfl)
    next notBackslash =>
      split
      next control =>
        repeat'
          split
          next same =>
            first
              | subst same
                exact .escape (.simple rfl)
              | rw [← named same]
                exact .escape (.simple rfl)
        rcases codeUnit?_control _ control with ⟨digits, notHigh, notLow⟩
        have spelled := EscapeText.unit digits notHigh notLow
        rw [Char.ofNat_toNat] at spelled
        exact .escape spelled
      next printable => exact .plain notQuote notBackslash printable

theorem quoted_writeString (content : String) : Quoted (writeString content) content := by
  have body (characters : List Char) : StringBody (characters.flatMap escape) characters := by
    induction characters with
    | nil => exact .nil
    | cons character characters induction => exact .cons (escape_spells character) induction
  have quoted := Quoted.intro (body content.toList)
  rw [String.ofList_toList] at quoted
  exact quoted

/-! ## Values -/

theorem Listing.single {α : Type} {item : List Char → α → Prop} {text : List Char} {value : α}
    (spelled : item text value) : Listing item text [value] := by
  have listing := Listing.last .nil spelled .nil
  rw [List.nil_append, List.append_nil] at listing
  exact listing

theorem Listing.comma {α : Type} {item : List Char → α → Prop} {text rest : List Char} {value : α}
    {values : List α} (spelled : item text value) (others : Listing item rest values) :
    Listing item (text ++ ',' :: rest) (value :: values) :=
  .more .nil spelled .nil others

theorem inside_writeElements {spells : List Char → Json → Prop} {elements : List Json}
    (each : ∀ element ∈ elements, spells element.write element) :
    Inside spells (writeElements elements) elements := by
  cases elements with
  | nil => exact .empty .nil
  | cons element elements =>
      refine .items ?_
      induction elements generalizing element with
      | nil => exact .single (each element List.mem_cons_self)
      | cons next elements induction =>
          rw [List.forall_mem_cons] at each
          exact .comma each.1 (induction next each.2)

theorem member_write {spells : List Char → Json → Prop} {name : String} {value : Json}
    (spelled : spells value.write value) :
    Member spells (writeString name ++ ':' :: value.write) (name, value) :=
  .intro (quoted_writeString name) .nil .nil spelled

theorem inside_writeMembers {spells : List Char → Json → Prop} {members : List (String × Json)}
    (each : ∀ member ∈ members, spells member.2.write member.2) :
    Inside (Member spells) (writeMembers members) members := by
  cases members with
  | nil => exact .empty .nil
  | cons member members =>
      refine .items ?_
      induction members generalizing member with
      | nil => exact .single (member_write (each member List.mem_cons_self))
      | cons next members induction =>
          rw [List.forall_mem_cons] at each
          exact .comma (member_write each.1) (induction next each.2)

namespace Storable

theorem scalar {value : Json} (storable : value.Storable) (readsBack : value.DoublesReadBack)
    (notContainer : value.isContainer = false) : Scalar value.write value := by
  cases storable with
  | null => exact .null
  | bool value =>
      cases value with
      | true => exact .true
      | false => exact .false
  | number storable => exact Number.scalar storable readsBack
  | string text => exact .string (quoted_writeString text)
  | array | object => cases notContainer

/-- The text of a value spells it, at every level that is deep enough. -/
theorem spells {levels : Nat} : ∀ {value : Json}, value.Storable → value.DoublesReadBack →
    value.NestsWithin levels → Spells levels value.write value := by
  induction levels with
  | zero =>
      intro value storable readsBack within
      exact storable.scalar readsBack within
  | succ levels induction =>
      intro value storable readsBack within
      cases storable with
      | array each =>
          exact .inr (.array (inside_writeElements fun element there =>
            induction (each element there) (readsBack.elements element there)
              (within element there)))
      | object distinct each =>
          exact .inr (.object (inside_writeMembers fun member there =>
            induction (each member there) (readsBack.members member there)
              (within member there)))
      | null => exact .inl (null.scalar readsBack rfl)
      | bool value => exact .inl ((bool value).scalar readsBack rfl)
      | number storable => exact .inl ((number storable).scalar readsBack rfl)
      | string text => exact .inl ((string text).scalar readsBack rfl)

/-- There is nothing to merge. -/
theorem merged {value : Json} (storable : value.Storable) : value.merged = value := by
  induction storable with
  | array each induction =>
      rw [Json.merged, mergedElements_eq_map]
      exact congrArg Json.array ((List.map_congr_left induction).trans (List.map_id' _))
  | object distinct each induction =>
      rw [Json.merged, mergedMembers_eq_map]
      have same := (List.map_congr_left fun member there =>
        congrArg (Prod.mk member.1) (induction member there)).trans (List.map_id' _)
      rw [same, mergeMembers_of_nodup distinct]
  | null | bool | number | string => rfl

/-- What is written of a value is read back, if it nests no deeper than texts may. -/
theorem decode_write {value : Json} (storable : value.Storable)
    (readsBack : value.DoublesReadBack) (within : value.NestsWithin nestingLimit) :
    decode (Utf8.encode value.write) = .ok value := by
  have read := (storable.spells readsBack within).decode (Nat.le_refl _)
  rwa [storable.merged] at read

end Storable

/-! ## Nesting of what is read -/

/-- If the reader takes anything off the front of the text and something else, it is all of the
text, and the value that the text is written of has the property. -/
def TakenWhole {α β : Type} (reader : Reader β) (holds : α → Prop) (text : List Char)
    (value : α) : Prop :=
  Begins text ∧ ∀ rest found left, Stops rest → reader (text ++ rest) = .ok (found, left) →
    left = rest ∧ holds value

section Containers

variable {α β : Type} {item : Reader β} {holds : α → Prop} {close : Char}

theorem readItems_takesWhole (closes : close = ']' ∨ close = '}') {inside : List Char}
    {values : List α} (listed : Listing (TakenWhole item holds) inside values)
    {rest left : List Char} : ∀ {budget : Nat} {found : List β},
      readItems item close budget (inside ++ close :: rest) = .ok (found, left) →
        left = rest ∧ ∀ value ∈ values, holds value := by
  have notBlank : Text.isBlank close = false := by rcases closes with rfl | rfl <;> decide
  have notComma : close ≠ ',' := by rcases closes with rfl | rfl <;> decide
  have stopsAt {mark : Char} (isMark : mark = ',' ∨ mark = close) {after : List Char}
      (isBlanks : Blanks after) (text : List Char) : Stops (after ++ mark :: text) := by
    apply isBlanks.stops
    intro character member
    cases member
    rcases isMark with rfl | rfl
    · decide
    · rcases closes with rfl | rfl <;> decide
  induction listed with
  | last blanksBefore taken blanksAfter =>
      intro budget found read
      cases budget with
      | zero => cases read
      | succ budget =>
          simp only [List.append_assoc, readItems, skipBlanks_append blanksBefore,
            taken.1.skipBlanks] at read
          rcases bind_eq_ok.mp read with ⟨⟨first, afterItem⟩, itemRead, finish⟩
          rcases taken.2 _ _ _ (stopsAt (.inr rfl) blanksAfter rest) itemRead with ⟨rfl, here⟩
          simp only [skipBlanks_append blanksAfter, skipBlanks_cons notBlank, if_neg notComma,
            if_true] at finish
          cases finish
          exact ⟨rfl, List.forall_mem_singleton.mpr here⟩
  | @more before text after inside value values blanksBefore taken blanksAfter others induction =>
      intro budget found read
      cases budget with
      | zero => cases read
      | succ budget =>
          simp only [List.append_assoc, List.cons_append, readItems,
            skipBlanks_append blanksBefore, taken.1.skipBlanks] at read
          rcases bind_eq_ok.mp read with ⟨⟨first, afterItem⟩, itemRead, finish⟩
          rcases taken.2 _ _ _ (stopsAt (.inl rfl) blanksAfter _) itemRead with ⟨rfl, here⟩
          simp only [skipBlanks_append blanksAfter,
            skipBlanks_cons (by decide : Text.isBlank ',' = false), if_true] at finish
          rcases bind_eq_ok.mp finish with ⟨⟨items, _⟩, othersRead, same⟩
          cases same
          rcases induction othersRead with ⟨rfl, later⟩
          exact ⟨rfl, List.forall_mem_cons.mpr ⟨here, later⟩⟩

theorem readContainer_takesWhole (closes : close = ']' ∨ close = '}') {inside : List Char}
    {values : List α} (filled : Inside (TakenWhole item holds) inside values)
    {rest left : List Char} {found : List β}
    (read : readContainer item close (inside ++ close :: rest) = .ok (found, left)) :
    left = rest ∧ ∀ value ∈ values, holds value := by
  have notBlank : Text.isBlank close = false := by rcases closes with rfl | rfl <;> decide
  cases filled with
  | empty isBlanks =>
      simp only [readContainer, skipBlanks_append isBlanks, skipBlanks_cons notBlank,
        if_true] at read
      cases read
      exact ⟨rfl, List.forall_mem_nil _⟩
  | items listed =>
      rw [readContainer_listing closes (fun _ _ taken => taken.1) rest listed] at read
      exact readItems_takesWhole closes listed read

theorem readMember_takesWhole {value : Reader β} {holds : Json → Prop} {text : List Char}
    {member : String × Json} (spelled : Member (TakenWhole value holds) text member) :
    TakenWhole (readMember value) (fun member => holds member.2) text member := by
  refine ⟨Member.begins _ _ spelled, fun rest found left stops read => ?_⟩
  cases spelled with
  | intro named blanksBefore blanksAfter taken =>
      cases named with
      | intro body =>
          simp only [List.cons_append, List.append_assoc, List.nil_append, readMember, if_true,
            readString_complete _ body, ok_bind, skipBlanks_append blanksBefore,
            skipBlanks_cons (by decide : Text.isBlank ':' = false),
            skipBlanks_append blanksAfter, taken.1.skipBlanks] at read
          rcases bind_eq_ok.mp read with ⟨⟨found, after⟩, valueRead, finish⟩
          cases finish
          exact taken.2 _ _ _ stops valueRead

end Containers

section Scalars

variable (levels : Nat) {text : List Char} {value : Json}

theorem takenWhole_of_scalar {tree : Json} (scalar : Scalar text tree)
    (notContainer : value.isContainer = false) :
    TakenWhole (readValue levels) (NestsWithin levels) text value := by
  refine ⟨scalar.begins, fun rest found left stops read => ?_⟩
  rw [readValue_scalar levels scalar stops] at read
  cases read
  exact ⟨rfl, nestsWithin_of_not_container notContainer⟩

theorem takenWhole_of_number {spelled : NumberText} (parts : NumberParts text spelled)
    (notContainer : value.isContainer = false) :
    TakenWhole (readValue levels) (NestsWithin levels) text value := by
  refine ⟨parts.begins, fun rest found left stops read => ?_⟩
  rw [readValue_number levels parts stops] at read
  cases isNumber : spelled.toNumber? with
  | none =>
      rw [isNumber] at read
      cases read
  | some number =>
      rw [isNumber] at read
      cases read
      exact ⟨rfl, nestsWithin_of_not_container notContainer⟩

theorem Storable.takenWhole_of_not_container (storable : value.Storable)
    (notContainer : value.isContainer = false) :
    TakenWhole (readValue levels) (NestsWithin levels) value.write value := by
  cases storable with
  | null => exact takenWhole_of_scalar levels .null rfl
  | bool value =>
      cases value with
      | true => exact takenWhole_of_scalar levels .true rfl
      | false => exact takenWhole_of_scalar levels .false rfl
  | number storable =>
      rcases Number.write_parts storable with ⟨spelled, parts⟩
      exact takenWhole_of_number levels parts rfl
  | string text => exact takenWhole_of_scalar levels (.string (quoted_writeString text)) rfl
  | array | object => cases notContainer

end Scalars

/-- What is written of a value nests no deeper than the reader goes, if the reader takes it. -/
theorem Storable.takenWhole (levels : Nat) : ∀ {value : Json}, value.Storable →
    TakenWhole (readValue levels) (NestsWithin levels) value.write value := by
  induction levels with
  | zero =>
      intro value storable
      cases notContainer : value.isContainer with
      | false => exact storable.takenWhole_of_not_container 0 notContainer
      | true =>
          cases value with
          | array | object => exact ⟨⟨_, _, rfl, by decide⟩, nofun⟩
          | null | bool | number | string => cases notContainer
  | succ levels induction =>
      intro value storable
      cases storable with
      | array each =>
          refine ⟨⟨_, _, rfl, by decide⟩, fun rest found left stops read => ?_⟩
          simp only [write, List.append_assoc, List.cons_append, List.nil_append,
            readValue_array] at read
          rcases bind_eq_ok.mp read with ⟨inside, insideRead, finish⟩
          cases finish
          exact readContainer_takesWhole (.inl rfl)
            (inside_writeElements fun element there => induction (each element there)) insideRead
      | object distinct each =>
          refine ⟨⟨_, _, rfl, by decide⟩, fun rest found left stops read => ?_⟩
          simp only [write, List.append_assoc, List.cons_append, List.nil_append,
            readValue_object] at read
          rcases bind_eq_ok.mp read with ⟨inside, insideRead, finish⟩
          cases finish
          have filled := inside_writeMembers fun member there => induction (each member there)
          exact readContainer_takesWhole (.inr rfl)
            (filled.mono fun _ _ spelled => readMember_takesWhole spelled) insideRead
      | null => exact null.takenWhole_of_not_container _ rfl
      | bool value => exact (bool value).takenWhole_of_not_container _ rfl
      | number storable => exact (number storable).takenWhole_of_not_container _ rfl
      | string text => exact (string text).takenWhole_of_not_container _ rfl

/-- What is written of a value that nests deeper than texts may is refused. -/
theorem Storable.decode_write_refused {value : Json} (storable : value.Storable)
    (deep : ¬value.NestsWithin nestingLimit) :
    ∃ defect, decode (Utf8.encode value.write) = .error defect := by
  rcases storable.takenWhole nestingLimit with ⟨begins, takes⟩
  cases read : decode (Utf8.encode value.write) with
  | error defect => exact ⟨defect, rfl⟩
  | ok found =>
      have same := begins.skipBlanks []
      rw [List.append_nil] at same
      rw [decode, Utf8.decode?_encode] at read
      rcases bind_eq_ok.mp read with ⟨⟨found, left⟩, valueRead, _⟩
      rw [same, ← List.append_nil value.write] at valueRead
      exact absurd (takes _ _ _ Stops.nil valueRead).2 deep

end Json

end JsonQuery
