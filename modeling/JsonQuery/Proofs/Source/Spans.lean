import JsonQuery.Proofs.Source.Scanning
import JsonQuery.Source.Span

/-!
Spans of well-formed text. A span that holds a text of the grammar decodes to what that text
spells, and its items are spans that hold the texts of the items, one after the other and all
between the brackets.
-/

namespace JsonQuery

namespace Scanner

/-! ## Between items -/

theorem blanks_append {text : List Char} (isBlanks : Json.Blanks text) (rest : List UInt8) :
    blanks (Utf8.encode text ++ rest) = (Utf8.encode text).length + blanks rest := by
  rw [blanks, List.takeWhile_append_of_pos (isBlank_of_mem_encode isBlanks), List.length_append,
    blanks]

theorem blanks_cons {byte : UInt8} (notBlank : isBlank byte = false) (rest : List UInt8) :
    blanks (byte :: rest) = 0 := by
  simp [blanks, notBlank]

/-- The first byte of an item is not taken for what stands between items. -/
theorem exists_cons_of_begins {text : List Char} (begins : Json.Begins text) (rest : List UInt8) :
    ∃ byte bytes, Utf8.encode text ++ rest = byte :: bytes ∧ isBlank byte = false ∧
      byte ≠ comma := by
  rcases begins with ⟨first, others, rfl, isBegin⟩
  have notMark : ∀ character ∈ [first], character ∉ [' ', '\t', '\n', '\r', ','] := by
    simp only [Json.beginsItem, Text.isBlank, Bool.and_eq_true, Bool.not_eq_true',
      Bool.or_eq_false_iff, decide_eq_false_iff_not, decide_eq_true_eq] at isBegin
    simp [isBegin]
  have distinct := forall_mem_encode_ne [' ', '\t', '\n', '\r', ','] (by simp) notMark
  have nonempty : Utf8.encode [first] ≠ [] := by
    simp [Utf8.encode, String.utf8EncodeChar_ne_nil]
  cases encoded : Utf8.encode [first] with
  | nil => exact absurd encoded nonempty
  | cons byte bytes =>
      have whole : Utf8.encode (first :: others) = byte :: (bytes ++ Utf8.encode others) := by
        rw [← List.singleton_append, Utf8.encode_append, encoded]
        rfl
      rw [encoded] at distinct
      have marks := distinct byte List.mem_cons_self
      have space := marks ' ' (by decide)
      have tab := marks '\t' (by decide)
      have line := marks '\n' (by decide)
      have carriage := marks '\r' (by decide)
      refine ⟨byte, _, by rw [whole]; rfl, ?_, marks ',' (by decide)⟩
      simp only [isBlank, Bool.or_eq_false_iff, beq_eq_false_iff_ne]
      exact ⟨⟨⟨space, tab⟩, line⟩, carriage⟩

/-- Blanks before an item are the whole separator where there is no comma. -/
theorem separator_item {blanks text : List Char} (isBlanks : Json.Blanks blanks)
    (begins : Json.Begins text) (rest : List UInt8) :
    separator (Utf8.encode blanks ++ (Utf8.encode text ++ rest)) =
      (Utf8.encode blanks).length := by
  rcases exists_cons_of_begins begins rest with ⟨byte, bytes, same, notBlank, notComma⟩
  rw [same]
  simp [separator, blanks_append isBlanks, blanks_cons notBlank, notComma]

theorem separator_comma {after blanks text : List Char} (isAfter : Json.Blanks after)
    (isBlanks : Json.Blanks blanks) (begins : Json.Begins text) (rest : List UInt8) :
    separator (Utf8.encode after ++ comma :: (Utf8.encode blanks ++ (Utf8.encode text ++ rest))) =
      (Utf8.encode after).length + 1 + (Utf8.encode blanks).length := by
  rcases exists_cons_of_begins begins rest with ⟨byte, bytes, same, notBlank, _⟩
  have notBlankComma : isBlank comma = false := by decide
  rw [same]
  simp [separator, blanks_append isAfter, blanks_cons notBlankComma, blanks_append isBlanks,
    blanks_cons notBlank]

theorem separator_closing {blanks : List Char} (isBlanks : Json.Blanks blanks) {close : UInt8}
    (closes : isClosing close = true) (rest : List UInt8) :
    separator (Utf8.encode blanks ++ close :: rest) = (Utf8.encode blanks).length := by
  have notMark : isBlank close = false ∧ close ≠ comma := by
    simp only [isClosing, Bool.or_eq_true, beq_iff_eq] at closes
    rcases closes with rfl | rfl <;> decide
  simp [separator, blanks_append isBlanks, blanks_cons notMark.1, notMark.2]

theorem stops_cons {byte : UInt8} (other : isNumberByte byte = false) (rest : List UInt8) :
    Stops (byte :: rest) := by
  intro head member
  rw [← Option.some.inj member]
  exact other

theorem stops_comma (rest : List UInt8) : Stops (comma :: rest) :=
  stops_cons (by decide) rest

theorem stops_closing {close : UInt8} (closes : isClosing close = true) (rest : List UInt8) :
    Stops (close :: rest) := by
  apply stops_cons
  simp only [isClosing, Bool.or_eq_true, beq_iff_eq] at closes
  rcases closes with rfl | rfl <;> decide

theorem encode_comma (text : List Char) :
    Utf8.encode (',' :: text) = comma :: Utf8.encode text :=
  encode_cons_ascii (by decide) text

theorem encode_colon (text : List Char) :
    Utf8.encode (':' :: text) = colon :: Utf8.encode text :=
  encode_cons_ascii (by decide) text

theorem stops_blanks {blanks : List Char} (isBlanks : Json.Blanks blanks) {rest : List UInt8}
    (stops : Stops rest) : Stops (Utf8.encode blanks ++ rest) := by
  cases blanks with
  | nil => exact stops
  | cons character blanks =>
      have blank := isBlanks character List.mem_cons_self
      simp only [Text.isBlank, Bool.or_eq_true, decide_eq_true_eq] at blank
      rcases blank with ((rfl | rfl) | rfl) | rfl <;>
        · rw [encode_cons_ascii (by decide)]
          exact stops_cons (by decide) _

end Scanner

namespace Span

open Scanner (Stops)

/-- Spans that follow one another between two offsets, none of them empty. -/
def Chain : (start : Nat) → List Span → (stop : Nat) → Prop
  | start, [], stop => start ≤ stop
  | start, span :: spans, stop => start ≤ span.start ∧ 0 < span.size ∧ Chain span.stop spans stop

theorem Chain.mono_start {start less stop : Nat} {spans : List Span} (earlier : less ≤ start)
    (chain : Chain start spans stop) : Chain less spans stop := by
  cases spans with
  | nil => exact Nat.le_trans earlier chain
  | cons span spans => exact ⟨Nat.le_trans earlier chain.1, chain.2⟩

theorem Chain.mono_stop {start stop more : Nat} {spans : List Span} (later : stop ≤ more)
    (chain : Chain start spans stop) : Chain start spans more := by
  induction spans generalizing start with
  | nil => exact Nat.le_trans chain later
  | cons span spans induction => exact ⟨chain.1, chain.2.1, induction chain.2.2⟩

theorem Chain.bounds {start stop : Nat} {spans : List Span} (chain : Chain start spans stop) :
    start ≤ stop ∧ ∀ span ∈ spans, start ≤ span.start ∧ 0 < span.size ∧ span.stop ≤ stop := by
  induction spans generalizing start with
  | nil => exact ⟨chain, nofun⟩
  | cons first others induction =>
      rcases chain with ⟨starts, nonempty, chained⟩
      rcases induction chained with ⟨ends, inside⟩
      have within : first.stop = first.start + first.size := rfl
      refine ⟨by omega, ?_⟩
      intro span member
      rcases List.mem_cons.mp member with rfl | later
      · exact ⟨starts, nonempty, ends⟩
      · have bounds := inside span later
        exact ⟨by omega, bounds.2⟩

/-- Of two spans of a chain the first one ends before the second one starts. -/
theorem Chain.apart {start stop : Nat} {spans : List Span} (chain : Chain start spans stop)
    {first second : Nat} (before : first < second) {left right : Span}
    (leftAt : spans[first]? = some left) (rightAt : spans[second]? = some right) :
    left.stop ≤ right.start := by
  induction spans generalizing start first second with
  | nil => cases leftAt
  | cons span spans induction =>
      rcases second with _ | second
      · omega
      · rw [List.getElem?_cons_succ] at rightAt
        rcases first with _ | first
        · rw [List.getElem?_cons_zero, Option.some.injEq] at leftAt
          rw [← leftAt]
          exact (chain.2.2.bounds.2 right (List.mem_of_getElem? rightAt)).1
        · exact induction chain.2.2 (by omega) leftAt rightAt

section Items

variable {α β : Type} {itemAt? : Nat → List UInt8 → Option α} {value : α → Span}
  {spells : List Char → β → Prop} {holds : α → β → Prop}

/-- Where a text of a kind begins, an item is found that ends where the text ends. -/
def Finds (itemAt? : Nat → List UInt8 → Option α) (value : α → Span)
    (spells : List Char → β → Prop) (holds : α → β → Prop) : Prop :=
  ∀ text item rest start, spells text item → Stops rest →
    ∃ found, itemAt? start (Utf8.encode text ++ rest) = some found ∧ holds found item ∧
      start ≤ (value found).start ∧ 0 < (value found).size ∧
      (value found).stop = start + (Utf8.encode text).length ∧
      (value found).text.drop (value found).size = rest

/-- The comma between two items may as well have been passed over before. -/
theorem itemsFrom_comma (begins : ∀ text item, spells text item → Json.Begins text)
    {after inside : List Char} {items : List β} (isBlanks : Json.Blanks after)
    (listed : Json.Listing spells inside items) (budget start : Nat) (rest : List UInt8) :
    itemsFrom itemAt? value budget start
        (Utf8.encode after ++ Scanner.comma :: (Utf8.encode inside ++ rest)) =
      itemsFrom itemAt? value budget (start + (Utf8.encode after).length + 1)
        (Utf8.encode inside ++ rest) := by
  cases budget with
  | zero => rfl
  | succ budget =>
      rcases listed.head begins with ⟨blanks, others, rfl, isBefore, begins⟩
      have regroup (tail : List UInt8) : Utf8.encode after ++ Scanner.comma ::
          (Utf8.encode blanks ++ tail) =
            (Utf8.encode after ++ Scanner.comma :: Utf8.encode blanks) ++ tail := by
        simp
      rw [Utf8.encode_append, List.append_assoc]
      simp only [itemsFrom, Scanner.separator_comma isBlanks isBefore begins,
        Scanner.separator_item isBefore begins, List.drop_left]
      rw [regroup, List.drop_left' (by simp only [List.length_append, List.length_cons]; omega)]
      simp only [Nat.add_assoc]

theorem itemsFrom_item (finds : Finds itemAt? value spells holds)
    (begins : ∀ text item, spells text item → Json.Begins text) {before text : List Char}
    (isBlanks : Json.Blanks before) {item : β} (spelled : spells text item) {rest : List UInt8}
    (stops : Stops rest) (budget start : Nat) :
    ∃ found, holds found item ∧ start ≤ (value found).start ∧ 0 < (value found).size ∧
      (value found).stop = start + (Utf8.encode before).length + (Utf8.encode text).length ∧
      itemsFrom itemAt? value (budget + 1) start
          (Utf8.encode before ++ (Utf8.encode text ++ rest)) =
        found :: itemsFrom itemAt? value budget (value found).stop rest := by
  rcases finds text item rest (start + (Utf8.encode before).length) spelled stops with
    ⟨found, located, held, starts, nonempty, stop, behind⟩
  refine ⟨found, held, by omega, nonempty, stop, ?_⟩
  rw [itemsFrom, Scanner.separator_item isBlanks (begins text item spelled)]
  simp only [List.drop_left, located, behind]

theorem itemsFrom_closing {close : UInt8} (closes : Scanner.isClosing close = true)
    (refuses : ∀ start rest, itemAt? start (close :: rest) = none) {blanks : List Char}
    (isBlanks : Json.Blanks blanks) (budget start : Nat) (rest : List UInt8) :
    itemsFrom itemAt? value budget start (Utf8.encode blanks ++ close :: rest) = [] := by
  cases budget with
  | zero => rfl
  | succ budget =>
      rw [itemsFrom, Scanner.separator_closing isBlanks closes]
      simp only [List.drop_left, refuses]

/-- Exactly the items that are listed are found, and they lie one behind the other. -/
theorem itemsFrom_listing {close : UInt8} (closes : Scanner.isClosing close = true)
    (finds : Finds itemAt? value spells holds)
    (begins : ∀ text item, spells text item → Json.Begins text)
    (refuses : ∀ start rest, itemAt? start (close :: rest) = none)
    {inside : List Char} {items : List β} (listed : Json.Listing spells inside items)
    (rest : List UInt8) :
    ∀ budget start, items.length ≤ budget →
      List.Forall₂ holds
          (itemsFrom itemAt? value budget start (Utf8.encode inside ++ close :: rest)) items ∧
        Chain start
          ((itemsFrom itemAt? value budget start (Utf8.encode inside ++ close :: rest)).map value)
          (start + (Utf8.encode inside).length) := by
  have stopsClose : Stops (close :: rest) := Scanner.stops_closing closes rest
  induction listed with
  | last blanksBefore spelled blanksAfter =>
      intro budget start enough
      cases budget with
      | zero => simp at enough
      | succ budget =>
          rcases itemsFrom_item finds begins blanksBefore spelled
            (Scanner.stops_blanks blanksAfter stopsClose) budget start with
            ⟨found, held, starts, nonempty, stop, items⟩
          simp only [Utf8.encode_append, List.append_assoc, List.length_append]
          rw [items, itemsFrom_closing closes refuses blanksAfter]
          exact ⟨.cons held .nil, starts, nonempty, by simp only [Chain, List.map_nil]; omega⟩
  | @more before text after others item items blanksBefore spelled blanksAfter listed induction =>
      intro budget start enough
      cases budget with
      | zero => simp at enough
      | succ budget =>
          have stopsComma : Stops (Utf8.encode after ++ Scanner.comma ::
              (Utf8.encode others ++ close :: rest)) :=
            Scanner.stops_blanks blanksAfter (Scanner.stops_comma _)
          rcases itemsFrom_item finds begins blanksBefore spelled stopsComma budget start with
            ⟨found, held, starts, nonempty, stop, items⟩
          rcases induction budget ((value found).stop + (Utf8.encode after).length + 1)
            (Nat.le_of_succ_le_succ enough) with ⟨heldOthers, chained⟩
          simp only [Utf8.encode_append, Scanner.encode_comma, List.append_assoc, List.cons_append,
            List.length_append, List.length_cons]
          rw [items, itemsFrom_comma begins blanksAfter listed]
          refine ⟨.cons held heldOthers, starts, nonempty, ?_⟩
          have stops : (value found).stop + (Utf8.encode after).length + 1 +
              (Utf8.encode others).length = start + ((Utf8.encode before).length +
                ((Utf8.encode text).length + ((Utf8.encode after).length +
                  ((Utf8.encode others).length + 1)))) := by
            omega
          rw [← stops]
          exact chained.mono_start (by omega)

theorem itemsFrom_inside {close : UInt8} (closes : Scanner.isClosing close = true)
    (finds : Finds itemAt? value spells holds)
    (begins : ∀ text item, spells text item → Json.Begins text)
    (refuses : ∀ start rest, itemAt? start (close :: rest) = none)
    {inside : List Char} {items : List β} (filled : Json.Inside spells inside items)
    (rest : List UInt8) {budget : Nat} (enough : inside.length ≤ budget) (start : Nat) :
    List.Forall₂ holds
        (itemsFrom itemAt? value budget start (Utf8.encode inside ++ close :: rest)) items ∧
      Chain start
        ((itemsFrom itemAt? value budget start (Utf8.encode inside ++ close :: rest)).map value)
        (start + (Utf8.encode inside).length) := by
  cases filled with
  | empty isBlanks =>
      rw [itemsFrom_closing closes refuses isBlanks]
      exact ⟨.nil, Nat.le_add_right _ _⟩
  | items listed =>
      have fits := (listed.length_le begins).trans enough
      exact itemsFrom_listing closes finds begins refuses listed rest budget start fits

end Items

end Span

end JsonQuery
