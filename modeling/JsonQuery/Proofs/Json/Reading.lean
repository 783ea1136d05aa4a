import JsonQuery.Proofs.Json.Merging
import JsonQuery.Proofs.Json.Numerals
import JsonQuery.Proofs.Json.Strings
import JsonQuery.Proofs.Text.Utf8

/-!
What the JSON readers accept, stated against the grammar: each takes a text of its kind off the
front and leaves the rest, and it does so for every text of its kind. The main result is
`decode_eq_ok_iff`, which says what decoding accepts and what value comes of it.
-/

namespace JsonQuery.Json

/-! ## Blanks -/

theorem exists_blanks (text : List Char) :
    ∃ blanks, text = blanks ++ Text.skipBlanks text ∧ Blanks blanks := by
  refine ⟨text.takeWhile Text.isBlank, List.takeWhile_append_dropWhile.symm, ?_⟩
  exact List.all_eq_true.mp List.all_takeWhile

theorem skipBlanks_append {blanks : List Char} (isBlanks : Blanks blanks) (text : List Char) :
    Text.skipBlanks (blanks ++ text) = Text.skipBlanks text :=
  List.dropWhile_append_of_pos isBlanks

theorem skipBlanks_cons {first : Char} (notBlank : Text.isBlank first = false)
    (text : List Char) : Text.skipBlanks (first :: text) = first :: text := by
  simp [Text.skipBlanks, notBlank]

theorem skipBlanks_skipBlanks (text : List Char) :
    Text.skipBlanks (Text.skipBlanks text) = Text.skipBlanks text := by
  rcases exists_blanks text with ⟨blanks, split, isBlanks⟩
  conv_rhs => rw [split, skipBlanks_append isBlanks]

theorem Blanks.nil : Blanks [] := List.forall_mem_nil _

theorem Blanks.stops {blanks text : List Char} (isBlanks : Blanks blanks) (stops : Stops text) :
    Stops (blanks ++ text) := by
  apply head_append
  · intro character member
    have blank := isBlanks character (List.mem_of_mem_head? member)
    simp only [Text.isBlank, Bool.or_eq_true, decide_eq_true_eq] at blank
    rcases blank with ((rfl | rfl) | rfl) | rfl <;> decide
  · exact stops

/-! ## Containers -/

/-- A character that can begin an item, so that it is not taken for what stands between items. -/
def beginsItem (character : Char) : Bool :=
  !Text.isBlank character && character ≠ ',' && character ≠ ']' && character ≠ '}'

/-- A text whose first character can begin an item. -/
def Begins (text : List Char) : Prop :=
  ∃ first others, text = first :: others ∧ beginsItem first = true

theorem Begins.skipBlanks {text : List Char} (begins : Begins text) (rest : List Char) :
    Text.skipBlanks (text ++ rest) = text ++ rest := by
  rcases begins with ⟨first, others, rfl, isBegin⟩
  simp only [beginsItem, Bool.and_eq_true, Bool.not_eq_true'] at isBegin
  exact skipBlanks_cons isBegin.1.1.1 _

section Containers

variable {α β : Type} {item : Reader β} {spells : List Char → α → Prop} {meaning : α → β}

theorem readItems_sound {close : Char}
    (sound : ∀ text rest found, item text = .ok (found, rest) →
      ∃ spelled value, text = spelled ++ rest ∧ spells spelled value ∧ found = meaning value)
    (budget : Nat) :
    ∀ {text rest found}, readItems item close budget text = .ok (found, rest) →
      ∃ spelled values, text = spelled ++ close :: rest ∧ Listing spells spelled values ∧
        found = values.map meaning := by
  induction budget with
  | zero => nofun
  | succ budget induction =>
      intro text rest found read
      rcases exists_blanks text with ⟨before, split, blanksBefore⟩
      rcases bind_eq_ok.mp read with ⟨⟨first, afterItem⟩, itemRead, finish⟩
      rcases sound _ _ _ itemRead with ⟨spelled, value, same, isItem, rfl⟩
      rcases exists_blanks afterItem with ⟨after, afterSplit, blanksAfter⟩
      rw [same] at split
      dsimp only at finish
      generalize Text.skipBlanks afterItem = remaining at finish afterSplit
      split at finish
      next => cases finish
      next mark remaining =>
        split at finish
        next isComma =>
          rcases bind_eq_ok.mp finish with ⟨⟨others, _⟩, othersRead, finish⟩
          cases finish
          rcases induction othersRead with ⟨inside, values, rfl, listed, rfl⟩
          refine ⟨_, _, ?_, .more blanksBefore isItem blanksAfter listed, rfl⟩
          rw [split, afterSplit, isComma]
          simp
        next =>
        split at finish
        next isClose =>
          cases finish
          refine ⟨_, _, ?_, .last blanksBefore isItem blanksAfter, rfl⟩
          rw [split, afterSplit, isClose]
          simp
        next => cases finish

theorem readItems_complete {close : Char} (closes : close = ']' ∨ close = '}')
    (begins : ∀ text value, spells text value → Begins text)
    (complete : ∀ text value rest, spells text value → Stops rest →
      item (text ++ rest) = .ok (meaning value, rest))
    {inside : List Char} {values : List α} (rest : List Char)
    (listed : Listing spells inside values) :
    ∀ budget, values.length ≤ budget →
      readItems item close budget (inside ++ close :: rest) = .ok (values.map meaning, rest) := by
  have notBlank : Text.isBlank close = false := by rcases closes with rfl | rfl <;> decide
  have notComma : close ≠ ',' := by rcases closes with rfl | rfl <;> decide
  induction listed with
  | @last before text after value blanksBefore spelled blanksAfter =>
      intro budget enough
      cases budget with
      | zero => cases enough
      | succ budget =>
          have stops : Stops (after ++ close :: rest) := by
            apply blanksAfter.stops
            intro character member
            cases member
            rcases closes with rfl | rfl <;> decide
          simp only [List.append_assoc, readItems, skipBlanks_append blanksBefore,
            (begins _ _ spelled).skipBlanks, complete _ _ _ spelled stops, ok_bind,
            skipBlanks_append blanksAfter, skipBlanks_cons notBlank, if_neg notComma, if_true,
            List.map_cons, List.map_nil]
  | @more before text after inside value values blanksBefore spelled blanksAfter others induction =>
      intro budget enough
      cases budget with
      | zero => cases enough
      | succ budget =>
          have stops : Stops (after ++ ',' :: (inside ++ close :: rest)) := by
            apply blanksAfter.stops
            intro character member
            cases member
            decide
          have tail := induction budget (Nat.le_of_succ_le_succ enough)
          simp only [List.append_assoc, List.cons_append, readItems,
            skipBlanks_append blanksBefore, (begins _ _ spelled).skipBlanks,
            complete _ _ _ spelled stops, ok_bind, skipBlanks_append blanksAfter,
            skipBlanks_cons (by decide : Text.isBlank ',' = false),
            if_true, tail, List.map_cons]

theorem readItems_skipBlanks (close : Char) (budget : Nat) (text : List Char) :
    readItems item close budget (Text.skipBlanks text) = readItems item close budget text := by
  cases budget with
  | zero => rfl
  | succ budget => simp only [readItems, skipBlanks_skipBlanks]

theorem Listing.blanks_append {blanks text : List Char} {values : List α}
    (isBlanks : Blanks blanks) (listed : Listing spells text values) :
    Listing spells (blanks ++ text) values := by
  have both : ∀ {before : List Char}, Blanks before → Blanks (blanks ++ before) := by
    intro before blanksBefore character member
    rcases List.mem_append.mp member with left | right
    · exact isBlanks character left
    · exact blanksBefore character right
  cases listed with
  | last blanksBefore spelled blanksAfter =>
      rw [← List.append_assoc]
      exact .last (both blanksBefore) spelled blanksAfter
  | more blanksBefore spelled blanksAfter others =>
      rw [← List.append_assoc]
      exact .more (both blanksBefore) spelled blanksAfter others

/-- A list of items is blanks and then the first item. -/
theorem Listing.head (begins : ∀ text value, spells text value → Begins text)
    {text : List Char} {values : List α} (listed : Listing spells text values) :
    ∃ blanks others, text = blanks ++ others ∧ Blanks blanks ∧ Begins others := by
  have longer : ∀ {text more : List Char}, Begins text → Begins (text ++ more) := by
    rintro text more ⟨first, others, rfl, isBegin⟩
    exact ⟨first, others ++ more, rfl, isBegin⟩
  cases listed with
  | last blanksBefore spelled blanksAfter =>
      exact ⟨_, _, rfl, blanksBefore, longer (begins _ _ spelled)⟩
  | more blanksBefore spelled blanksAfter others =>
      exact ⟨_, _, rfl, blanksBefore, longer (begins _ _ spelled)⟩

/-- Each item takes a character at least. -/
theorem Listing.length_le (begins : ∀ text value, spells text value → Begins text)
    {text : List Char} {values : List α} (listed : Listing spells text values) :
    values.length ≤ text.length := by
  have nonempty : ∀ {text value}, spells text value → 1 ≤ text.length := by
    intro text value spelled
    rcases begins _ _ spelled with ⟨first, others, rfl, _⟩
    exact Nat.le_add_left 1 _
  induction listed with
  | last blanksBefore spelled blanksAfter =>
      have positive := nonempty spelled
      simp only [List.length_append, List.length_singleton]
      omega
  | more blanksBefore spelled blanksAfter others induction =>
      simp only [List.length_append, List.length_cons]
      omega

theorem readContainer_sound {close : Char}
    (sound : ∀ text rest found, item text = .ok (found, rest) →
      ∃ spelled value, text = spelled ++ rest ∧ spells spelled value ∧ found = meaning value)
    {text rest : List Char} {found : List β}
    (read : readContainer item close text = .ok (found, rest)) :
    ∃ inside values, text = inside ++ close :: rest ∧ Inside spells inside values ∧
      found = values.map meaning := by
  rcases exists_blanks text with ⟨blanks, split, isBlanks⟩
  rw [readContainer] at read
  generalize Text.skipBlanks text = remaining at read split
  split at read
  next => cases read
  next mark remaining =>
    split at read
    next isClose =>
      cases read
      exact ⟨blanks, [], by rw [split, isClose], .empty isBlanks, rfl⟩
    next =>
      rcases readItems_sound sound _ read with ⟨inside, values, same, listed, rfl⟩
      refine ⟨blanks ++ inside, values, ?_, .items (listed.blanks_append isBlanks), rfl⟩
      rw [split, same, List.append_assoc]

/-- Where there are items, the inside of a container is read item by item. -/
theorem readContainer_listing {close : Char} (closes : close = ']' ∨ close = '}')
    (begins : ∀ text value, spells text value → Begins text) {inside : List Char}
    {values : List α} (rest : List Char) (listed : Listing spells inside values) :
    readContainer item close (inside ++ close :: rest) =
      readItems item close (inside ++ close :: rest).length (inside ++ close :: rest) := by
  rw [← readItems_skipBlanks]
  rcases listed.head begins with ⟨blanks, others, rfl, isBlanks, first, others, rfl, isBegin⟩
  have notClose : first ≠ close := by
    rintro rfl
    rcases closes with rfl | rfl <;> cases isBegin
  rw [readContainer, List.append_assoc, skipBlanks_append isBlanks,
    Begins.skipBlanks ⟨first, others, rfl, isBegin⟩]
  simp only [List.cons_append, if_neg notClose]

theorem readContainer_complete {close : Char} (closes : close = ']' ∨ close = '}')
    (begins : ∀ text value, spells text value → Begins text)
    (complete : ∀ text value rest, spells text value → Stops rest →
      item (text ++ rest) = .ok (meaning value, rest))
    {inside : List Char} {values : List α} (rest : List Char)
    (filled : Inside spells inside values) :
    readContainer item close (inside ++ close :: rest) = .ok (values.map meaning, rest) := by
  have notBlank : Text.isBlank close = false := by rcases closes with rfl | rfl <;> decide
  cases filled with
  | empty isBlanks =>
      simp only [readContainer, skipBlanks_append isBlanks, skipBlanks_cons notBlank, if_true,
        List.map_nil]
  | items listed =>
      have enough : values.length ≤ (inside ++ close :: rest).length := by
        have bound := listed.length_le begins
        rw [List.length_append]
        omega
      rw [readContainer_listing closes begins rest listed]
      exact readItems_complete closes begins complete rest listed _ enough

end Containers

/-! ## Values -/

theorem Quoted.begins {text : List Char} {content : String} (quoted : Quoted text content) :
    Begins text := by
  cases quoted with
  | intro spelled => exact ⟨_, _, rfl, by decide⟩

theorem beginsItem_of_isDigit {character : Char} (isDigit : character.isDigit = true) :
    beginsItem character = true := by
  simp only [beginsItem, Text.isBlank, Bool.and_eq_true, Bool.not_eq_true', Bool.or_eq_false_iff,
    decide_eq_false_iff_not, decide_eq_true_eq]
  refine ⟨⟨⟨⟨⟨⟨?_, ?_⟩, ?_⟩, ?_⟩, ?_⟩, ?_⟩, ?_⟩ <;> rintro rfl <;> cases isDigit

theorem NumberParts.head {text : List Char} {number : NumberText}
    (parts : NumberParts text number) :
    ∃ first others, text = first :: others ∧ (first = '-' ∨ first.isDigit = true) := by
  cases parts with
  | @intro sign whole fractionText exponentText negative fraction exponent signed isWhole =>
      cases negative with
      | true =>
          rw [signed]
          exact ⟨_, _, rfl, .inl rfl⟩
      | false =>
          rw [signed]
          cases whole with
          | nil => exact absurd rfl isWhole.1.1
          | cons digit whole => exact ⟨_, _, rfl, .inr (isWhole.1.2 digit List.mem_cons_self)⟩

theorem NumberParts.begins {text : List Char} {number : NumberText}
    (parts : NumberParts text number) : Begins text := by
  rcases parts.head with ⟨first, others, rfl, rfl | isDigit⟩
  · exact ⟨_, _, rfl, by decide⟩
  · exact ⟨_, _, rfl, beginsItem_of_isDigit isDigit⟩

theorem Scalar.begins {text : List Char} {tree : Json} (scalar : Scalar text tree) :
    Begins text := by
  cases scalar with
  | null | true | false => exact ⟨_, _, rfl, by decide⟩
  | string quoted => exact quoted.begins
  | number parts inRange => exact parts.begins

theorem Spells.begins (levels : Nat) (text : List Char) (tree : Json)
    (spelled : Spells levels text tree) : Begins text := by
  cases levels with
  | zero => exact Scalar.begins spelled
  | succ levels =>
      rcases spelled with scalar | composite
      · exact scalar.begins
      · cases composite with
        | array | object => exact ⟨_, _, rfl, by decide⟩

theorem Scalar.spells {text : List Char} {tree : Json} (scalar : Scalar text tree) :
    ∀ levels, Spells levels text tree
  | 0 => scalar
  | _ + 1 => .inl scalar

theorem Member.begins {spells : List Char → Json → Prop} (text : List Char)
    (member : String × Json) (spelled : Member spells text member) : Begins text := by
  cases spelled with
  | intro named =>
      rcases named.begins with ⟨first, others, rfl, isBegin⟩
      exact ⟨first, _, rfl, isBegin⟩

theorem readMember_sound {spells : List Char → Json → Prop} {meaning : Json → Json}
    {value : Reader Json}
    (sound : ∀ text rest found, value text = .ok (found, rest) →
      ∃ spelled tree, text = spelled ++ rest ∧ spells spelled tree ∧ found = meaning tree)
    (text rest : List Char) (found : String × Json)
    (read : readMember value text = .ok (found, rest)) :
    ∃ spelled member, text = spelled ++ rest ∧ Member spells spelled member ∧
      found = (member.1, meaning member.2) := by
  cases text with
  | nil => cases read
  | cons quote text =>
      rw [readMember] at read
      split at read
      next isQuote =>
        rcases bind_eq_ok.mp read with ⟨⟨name, afterName⟩, nameRead, finish⟩
        rcases readString_sound nameRead with ⟨quotedName, split, named⟩
        rcases exists_blanks afterName with ⟨before, nameSplit, blanksBefore⟩
        dsimp only at finish
        generalize Text.skipBlanks afterName = remaining at finish nameSplit
        split at finish
        next => cases finish
        next mark remaining =>
          split at finish
          next isColon =>
            rcases exists_blanks remaining with ⟨after, colonSplit, blanksAfter⟩
            rcases bind_eq_ok.mp finish with ⟨⟨tree, _⟩, valueRead, finish⟩
            cases finish
            rcases sound _ _ _ valueRead with ⟨spelled, tree, same, isSpelled, rfl⟩
            refine ⟨_, (name, tree), ?_, .intro named blanksBefore blanksAfter isSpelled, rfl⟩
            rw [isQuote, split, nameSplit, colonSplit, same, isColon]
            simp
          next => cases finish
      next => cases read

theorem readMember_complete {spells : List Char → Json → Prop} {meaning : Json → Json}
    {value : Reader Json} (begins : ∀ text tree, spells text tree → Begins text)
    (complete : ∀ text tree rest, spells text tree → Stops rest →
      value (text ++ rest) = .ok (meaning tree, rest))
    (text : List Char) (member : String × Json) (rest : List Char)
    (spelled : Member spells text member) (stops : Stops rest) :
    readMember value (text ++ rest) = .ok ((member.1, meaning member.2), rest) := by
  cases spelled with
  | intro named blanksBefore blanksAfter spelled =>
      cases named with
      | intro body =>
          simp only [List.cons_append, List.append_assoc, List.nil_append, readMember, if_true,
            readString_complete _ body, ok_bind, skipBlanks_append blanksBefore,
            skipBlanks_cons (by decide : Text.isBlank ':' = false),
            skipBlanks_append blanksAfter, (begins _ _ spelled).skipBlanks,
            complete _ _ _ spelled stops]

theorem readWord_sound {word text rest : List Char} {value found : Json}
    (read : readWord word value text = .ok (found, rest)) :
    text = word ++ rest ∧ found = value := by
  unfold readWord at read
  split at read
  next starts =>
    cases read
    rcases List.isPrefixOf_iff_prefix.mp starts with ⟨rest, rfl⟩
    simp
  next =>
    split at read <;> cases read

theorem readWord_complete (word rest : List Char) (value : Json) :
    readWord word value (word ++ rest) = .ok (value, rest) := by
  have starts : word.isPrefixOf (word ++ rest) = true :=
    List.isPrefixOf_iff_prefix.mpr (List.prefix_append word rest)
  unfold readWord
  rw [if_pos starts, List.drop_left]

section Composites

variable {value : Reader Json} {spells : List Char → Json → Prop} {text rest : List Char}
  {found : Json}

theorem readArray_sound
    (sound : ∀ text rest found, value text = .ok (found, rest) →
      ∃ spelled tree, text = spelled ++ rest ∧ spells spelled tree ∧ found = tree.merged)
    (read : (readContainer value ']' text >>= fun (elements, text) =>
      .ok (.array elements, text)) = .ok (found, rest)) :
    ∃ spelled tree, '[' :: text = spelled ++ rest ∧ Composite spells spelled tree ∧
      found = tree.merged := by
  rcases bind_eq_ok.mp read with ⟨⟨elements, _⟩, insideRead, finish⟩
  cases finish
  rcases readContainer_sound sound insideRead with ⟨inside, trees, rfl, filled, rfl⟩
  refine ⟨_, .array trees, ?_, .array filled, ?_⟩
  · simp
  · rw [merged, mergedElements_eq_map]

theorem readObject_sound
    (sound : ∀ text rest found, value text = .ok (found, rest) →
      ∃ spelled tree, text = spelled ++ rest ∧ spells spelled tree ∧ found = tree.merged)
    (read : (readContainer (readMember value) '}' text >>= fun (members, text) =>
      .ok (.object (mergeMembers members), text)) = .ok (found, rest)) :
    ∃ spelled tree, '{' :: text = spelled ++ rest ∧ Composite spells spelled tree ∧
      found = tree.merged := by
  rcases bind_eq_ok.mp read with ⟨⟨members, _⟩, insideRead, finish⟩
  cases finish
  rcases readContainer_sound (readMember_sound sound) insideRead with
    ⟨inside, trees, rfl, filled, rfl⟩
  refine ⟨_, .object trees, ?_, .object filled, ?_⟩
  · simp
  · rw [merged, mergedMembers_eq_map]

end Composites

/-- A reader of values is sound for some level if it is for the one below. -/
theorem readValue_sound_step (levels : Nat)
    (lower : ∀ below, levels = below + 1 → ∀ text rest found,
      readValue below text = .ok (found, rest) →
        ∃ spelled tree, text = spelled ++ rest ∧ Spells below spelled tree ∧ found = tree.merged)
    (text rest : List Char) (found : Json) (read : readValue levels text = .ok (found, rest)) :
    ∃ spelled tree, text = spelled ++ rest ∧ Spells levels spelled tree ∧
      found = tree.merged := by
  cases text with
  | nil => cases levels <;> cases read
  | cons mark text =>
      rw [readValue, readWith.eq_def] at read
      dsimp only [Builder.tree] at read
      split at read
      next isMark =>
        cases levels with
        | zero => cases read
        | succ below =>
            rcases readArray_sound (lower below rfl) read with ⟨spelled, tree, same, composite, rfl⟩
            rw [isMark]
            exact ⟨spelled, tree, same, .inr composite, rfl⟩
      next =>
      split at read
      next isMark =>
        cases levels with
        | zero => cases read
        | succ below =>
            rcases readObject_sound (lower below rfl) read with
              ⟨spelled, tree, same, composite, rfl⟩
            rw [isMark]
            exact ⟨spelled, tree, same, .inr composite, rfl⟩
      next =>
      split at read
      next isMark =>
        rcases bind_eq_ok.mp read with ⟨⟨content, _⟩, stringRead, finish⟩
        cases finish
        rcases readString_sound stringRead with ⟨quoted, same, isQuoted⟩
        rw [isMark, same]
        exact ⟨quoted, _, rfl, Scalar.spells (.string isQuoted) levels, rfl⟩
      next =>
      split at read
      next =>
        rcases readWord_sound read with ⟨same, rfl⟩
        exact ⟨_, _, same, Scalar.spells .null levels, rfl⟩
      next =>
      split at read
      next =>
        rcases readWord_sound read with ⟨same, rfl⟩
        exact ⟨_, _, same, Scalar.spells .true levels, rfl⟩
      next =>
      split at read
      next =>
        rcases readWord_sound read with ⟨same, rfl⟩
        exact ⟨_, _, same, Scalar.spells .false levels, rfl⟩
      next =>
      split at read
      next =>
        rcases bind_eq_ok.mp read with ⟨⟨number, _⟩, numberRead, finish⟩
        cases finish
        rcases readNumber_sound numberRead with ⟨spelled, same, scalar⟩
        exact ⟨spelled, _, same, scalar.spells levels, rfl⟩
      next => cases read

theorem readValue_sound : ∀ (levels : Nat) (text rest : List Char) (found : Json),
    readValue levels text = .ok (found, rest) →
      ∃ spelled tree, text = spelled ++ rest ∧ Spells levels spelled tree ∧ found = tree.merged
  | 0 => readValue_sound_step 0 nofun
  | levels + 1 =>
      readValue_sound_step (levels + 1) fun below same => by
        cases same
        exact readValue_sound levels

theorem readValue_number {text rest : List Char} {spelled : NumberText} (levels : Nat)
    (parts : NumberParts text spelled) (stops : Stops rest) :
    readValue levels (text ++ rest) =
      spelled.toNumber?.elim (.error .numberOutOfRange) fun value => .ok (.number value, rest) := by
  have read := readNumberText_complete parts stops
  rcases parts.head with ⟨first, others, rfl, isNumber⟩
  have notMark : first ≠ '[' ∧ first ≠ '{' ∧ first ≠ '"' ∧ first ≠ 'n' ∧ first ≠ 't' ∧
      first ≠ 'f' := by
    refine ⟨?_, ?_, ?_, ?_, ?_, ?_⟩ <;> rintro rfl <;> revert isNumber <;> decide
  rw [List.cons_append] at read ⊢
  rw [readValue, readWith.eq_def]
  simp only [notMark, if_false, if_pos isNumber, readNumber, read, ok_bind]
  cases spelled.toNumber? <;> rfl

theorem readValue_scalar {text rest : List Char} {tree : Json} (levels : Nat)
    (scalar : Scalar text tree) (stops : Stops rest) :
    readValue levels (text ++ rest) = .ok (tree.merged, rest) := by
  cases scalar with
  | number parts inRange =>
      rw [readValue_number levels parts stops, inRange]
      rfl
  | null =>
      rw [readValue, readWith.eq_def]
      exact readWord_complete ['n', 'u', 'l', 'l'] rest .null
  | true =>
      rw [readValue, readWith.eq_def]
      exact readWord_complete ['t', 'r', 'u', 'e'] rest (.bool true)
  | false =>
      rw [readValue, readWith.eq_def]
      exact readWord_complete ['f', 'a', 'l', 's', 'e'] rest (.bool false)
  | string quoted =>
      cases quoted with
      | intro body =>
          rw [readValue, readWith.eq_def]
          simp [readString_complete rest body, Builder.tree, merged]

theorem readValue_array (levels : Nat) (text : List Char) :
    readValue (levels + 1) ('[' :: text) =
      readContainer (readValue levels) ']' text >>= fun read => .ok (.array read.1, read.2) := by
  rw [readValue, readWith, if_pos rfl]
  rfl

theorem readValue_object (levels : Nat) (text : List Char) :
    readValue (levels + 1) ('{' :: text) =
      readContainer (readMember (readValue levels)) '}' text >>= fun read =>
        .ok (.object (mergeMembers read.1), read.2) := by
  rw [readValue, readWith, if_neg (by decide), if_pos rfl]
  rfl

theorem readValue_complete : ∀ (levels : Nat) (text : List Char) (tree : Json) (rest : List Char),
    Spells levels text tree → Stops rest →
      readValue levels (text ++ rest) = .ok (tree.merged, rest)
  | 0, _, _, _, spelled, stops => readValue_scalar 0 spelled stops
  | levels + 1, text, tree, rest, spelled, stops => by
      rcases spelled with scalar | composite
      · exact readValue_scalar (levels + 1) scalar stops
      · have begins := Spells.begins levels
        have complete := readValue_complete levels
        cases composite with
        | array inside =>
            have read := readContainer_complete (.inl rfl) begins complete rest inside
            simp [readValue_array, read, merged, mergedElements_eq_map]
        | object inside =>
            have read := readContainer_complete (.inr rfl) Member.begins
              (readMember_complete begins complete) rest inside
            simp [readValue_object, read, merged, mergedMembers_eq_map]

/-! ## Documents -/

theorem Stops.nil : Stops [] := nofun

theorem Listing.mono {α : Type} {weak strong : List Char → α → Prop}
    (stronger : ∀ text value, weak text value → strong text value) {text : List Char}
    {values : List α} (listed : Listing weak text values) : Listing strong text values := by
  induction listed with
  | last blanksBefore spelled blanksAfter =>
      exact .last blanksBefore (stronger _ _ spelled) blanksAfter
  | more blanksBefore spelled blanksAfter others induction =>
      exact .more blanksBefore (stronger _ _ spelled) blanksAfter induction

theorem Inside.mono {α : Type} {weak strong : List Char → α → Prop}
    (stronger : ∀ text value, weak text value → strong text value) {text : List Char}
    {values : List α} (filled : Inside weak text values) : Inside strong text values := by
  cases filled with
  | empty isBlanks => exact .empty isBlanks
  | items listed => exact .items (listed.mono stronger)

theorem Composite.mono {weak strong : List Char → Json → Prop}
    (stronger : ∀ text tree, weak text tree → strong text tree) {text : List Char} {tree : Json}
    (composite : Composite weak text tree) : Composite strong text tree := by
  have strongerMember : ∀ text member, Member weak text member → Member strong text member := by
    rintro text member ⟨named, blanksBefore, blanksAfter, spelled⟩
    exact .intro named blanksBefore blanksAfter (stronger _ _ spelled)
  cases composite with
  | array inside => exact .array (inside.mono stronger)
  | object inside => exact .object (inside.mono strongerMember)

/-- A value may stand where deeper nesting is allowed. -/
theorem Spells.succ : ∀ (levels : Nat) (text : List Char) (tree : Json),
    Spells levels text tree → Spells (levels + 1) text tree
  | 0, _, _, spelled => .inl spelled
  | levels + 1, text, tree, spelled => by
      rcases spelled with scalar | composite
      · exact .inl scalar
      · exact .inr (composite.mono (Spells.succ levels))

theorem Spells.mono {levels more : Nat} (enough : levels ≤ more) {text : List Char} {tree : Json}
    (spelled : Spells levels text tree) : Spells more text tree := by
  induction enough with
  | refl => exact spelled
  | step _ induction => exact Spells.succ _ _ _ induction

/-- What stands inside a container may itself stand where the container does. -/
theorem Spells.composite {levels : Nat} {text : List Char} {tree : Json}
    (spelled : Spells levels text tree) (container : tree.isContainer = true) :
    Composite (Spells levels) text tree := by
  have notScalar : ¬Scalar text tree := by
    intro scalar
    cases scalar <;> cases container
  cases levels with
  | zero => exact absurd spelled notScalar
  | succ levels =>
      rcases spelled with scalar | composite
      · exact absurd scalar notScalar
      · exact composite.mono (Spells.succ levels)

theorem parse_eq_ok_iff {text : List Char} {value : Json} :
    parse text = .ok value ↔ ∃ tree, DocumentText text tree ∧ value = tree.merged := by
  constructor
  · intro read
    rcases exists_blanks text with ⟨before, split, blanksBefore⟩
    rcases bind_eq_ok.mp read with ⟨⟨found, rest⟩, valueRead, finish⟩
    rcases readValue_sound _ _ _ _ valueRead with ⟨spelled, tree, same, isSpelled, rfl⟩
    rcases exists_blanks rest with ⟨after, restSplit, blanksAfter⟩
    dsimp only at finish
    split at finish
    next nothing =>
      cases finish
      rw [nothing, List.append_nil] at restSplit
      rw [split, same, restSplit]
      exact ⟨tree, .intro blanksBefore isSpelled blanksAfter, rfl⟩
    next => cases finish
  · rintro ⟨tree, ⟨blanksBefore, spelled, blanksAfter⟩, rfl⟩
    have stops := blanksAfter.stops Stops.nil
    have nothing := skipBlanks_append blanksAfter []
    rw [List.append_nil] at stops nothing
    change _ = [] at nothing
    simp only [parse, readAll, skipBlanks_append blanksBefore,
      (Spells.begins _ _ _ spelled).skipBlanks,
      readValue_complete _ _ _ _ spelled stops, ok_bind, nothing, if_true]

/-- A source is decoded exactly if it is the encoding of a document text, and its value is the
tree of that text with repeated names merged. -/
theorem decode_eq_ok_iff {source : List UInt8} {value : Json} :
    decode source = .ok value ↔
      ∃ text tree, source = Utf8.encode text ∧ DocumentText text tree ∧ value = tree.merged := by
  constructor
  · intro read
    rw [decode] at read
    split at read
    next text spelled =>
      rcases parse_eq_ok_iff.mp read with ⟨tree, isDocument, same⟩
      exact ⟨text, tree, Utf8.decode?_eq_some_iff.mp spelled, isDocument, same⟩
    next => cases read
  · rintro ⟨text, tree, rfl, isDocument, same⟩
    rw [decode, Utf8.decode?_encode]
    exact parse_eq_ok_iff.mpr ⟨tree, isDocument, same⟩

/-- A value that stands alone is decoded as it is where it stands in a document. -/
theorem Spells.decode {levels : Nat} (shallow : levels ≤ nestingLimit) {text : List Char}
    {tree : Json} (spelled : Spells levels text tree) :
    Json.decode (Utf8.encode text) = .ok tree.merged := by
  have alone : DocumentText ([] ++ (text ++ [])) tree :=
    .intro nofun (spelled.mono shallow) nofun
  rw [List.nil_append, List.append_nil] at alone
  exact decode_eq_ok_iff.mpr ⟨text, tree, rfl, alone, rfl⟩

/-- A number that stands alone is decoded to what its parts stand for. -/
theorem NumberParts.decode {text : List Char} {spelled : NumberText}
    (parts : NumberParts text spelled) :
    Json.decode (Utf8.encode text) =
      spelled.toNumber?.elim (.error .numberOutOfRange) fun value => .ok (.number value) := by
  have read := readValue_number nestingLimit parts Stops.nil
  have begins := parts.begins.skipBlanks []
  rw [List.append_nil] at read begins
  rw [Json.decode, Utf8.decode?_encode]
  simp only [parse, readAll, begins, read]
  cases spelled.toNumber? <;> rfl

theorem Quoted.decodeString? {text : List Char} {content : String} (quoted : Quoted text content) :
    Json.decodeString? (Utf8.encode text) = some content := by
  cases quoted with
  | intro body =>
      have read := readString_complete [] body
      simp only [Json.decodeString?, Utf8.decode?_encode, read]

end JsonQuery.Json
