import JsonQuery.Proofs.Source.Passing
import JsonQuery.Proofs.Source.Places
import Mathlib

/-!
Spans of any bytes, JSON or not. Going down from the root of a source never leaves it: the children
of a span lie one behind the other between its first byte and its last one. So every search for
items comes to an end, and so does every way down.
-/

namespace JsonQuery

inductive Node.Leads {ν : Type} [Node ν] (node : ν) : ν → Prop
  | field {name : String} {below : ν} (found : Node.field node name = some below) :
      Leads node below
  | element {position : Nat} {below : ν} (found : Node.element node position = some below) :
      Leads node below
  | child {below : ν} (there : below ∈ Node.children node) : Leads node below

end JsonQuery

namespace JsonQuery.Span

open Scanner (Passes)

/-- A span of a source: its text goes on to the end of the source, and its size is that of the
value which the scanner finds there. -/
structure Of (source : List UInt8) (span : Span) : Prop where
  text : span.text = source.drop span.start
  size : Scanner.valueSize? span.text = some span.size

section Of

variable {source : List UInt8} {span : Span}

theorem Of.nonempty (of : span.Of source) : 0 < span.size :=
  (Scanner.passes_value of.size).1

theorem Of.inside (of : span.Of source) : span.stop ≤ source.length := by
  have fits := (Scanner.passes_value of.size).2.1
  have nonempty := of.nonempty
  rw [of.text, List.length_drop] at fits
  rw [stop]
  omega

theorem of_at {start : Nat} (found : at? start (source.drop start) = some span) :
    span.Of source ∧ span.start = start := by
  rcases Option.map_eq_some_iff.mp found with ⟨size, isSize, rfl⟩
  exact ⟨⟨rfl, isSize⟩, rfl⟩

theorem of_root (isRoot : root? source = some span) : span.Of source :=
  (of_at isRoot).1

end Of

/-! ## Items of any text -/

section Items

variable {α : Type} {itemAt? : Nat → List UInt8 → Option α} {value : α → Span}

/-- An item that is found is a span of the source, and a search for a closing bracket passes over
all that stands before it. -/
def Scans (itemAt? : Nat → List UInt8 → Option α) (value : α → Span) : Prop :=
  ∀ source start item, itemAt? start (source.drop start) = some item →
    (value item).Of source ∧
      ∃ offset, Passes (source.drop start) offset ∧ (value item).start = start + offset

inductive Iterates (itemAt? : Nat → List UInt8 → Option α) (value : α → Span) :
    Nat → List UInt8 → List α → Prop
  | ends {start : Nat} {text : List UInt8}
      (nothing : itemAt? (start + Scanner.separator text)
        (text.drop (Scanner.separator text)) = none) : Iterates itemAt? value start text []
  | next {start : Nat} {text : List UInt8} {item : α} {items : List α}
      (found : itemAt? (start + Scanner.separator text)
        (text.drop (Scanner.separator text)) = some item)
      (others : Iterates itemAt? value (value item).stop
        ((value item).text.drop (value item).size) items) :
      Iterates itemAt? value start text (item :: items)

variable {source : List UInt8}

theorem Scans.next (scans : Scans itemAt? value) {start : Nat} {item : α}
    (found : itemAt? (start + Scanner.separator (source.drop start))
      ((source.drop start).drop (Scanner.separator (source.drop start))) = some item) :
    (value item).Of source ∧
      (value item).text.drop (value item).size = source.drop (value item).stop ∧
      ∃ offset, Passes (source.drop start) (offset + (value item).size) ∧
        (value item).start = start + offset := by
  rw [List.drop_drop] at found
  rcases scans _ _ _ found with ⟨of, offset, passes, starts⟩
  refine ⟨of, ?_, Scanner.separator (source.drop start) + offset, ?_, by omega⟩
  · rw [of.text, List.drop_drop, stop]
  · rw [← List.drop_drop] at passes
    have before := (Scanner.passes_separator (source.drop start)).append passes
    refine before.append ?_
    have behind : (source.drop start).drop (Scanner.separator (source.drop start) + offset) =
        (value item).text := by
      rw [List.drop_drop, of.text, starts, Nat.add_assoc]
    rw [behind]
    exact (Scanner.passes_value of.size).2

theorem Scans.exists_of_mem (scans : Scans itemAt? value) {item : α} (budget : Nat) :
    ∀ start, item ∈ itemsFrom itemAt? value budget start (source.drop start) →
      ∃ place, start ≤ place ∧ itemAt? place (source.drop place) = some item := by
  induction budget with
  | zero => nofun
  | succ budget induction =>
      intro start there
      rw [itemsFrom] at there
      split at there
      next first found =>
        rcases scans.next found with ⟨_, behind, offset, _, starts⟩
        rcases List.mem_cons.mp there with rfl | later
        · rw [List.drop_drop] at found
          exact ⟨_, Nat.le_add_right _ _, found⟩
        · rw [behind] at later
          rcases induction _ later with ⟨place, after, isFound⟩
          refine ⟨place, ?_, isFound⟩
          rw [stop] at after
          omega
      next => cases there

theorem Scans.chain (scans : Scans itemAt? value) (budget : Nat) : ∀ {start size : Nat},
    Scanner.closingSize? false 1 (source.drop start) = some size →
      Chain start ((itemsFrom itemAt? value budget start (source.drop start)).map value)
        (start + size - 1) := by
  induction budget with
  | zero =>
      intro start size closes
      have nonempty := (Scanner.closingSize?_overtaken closes).1
      show start ≤ start + size - 1
      omega
  | succ budget induction =>
      intro start size closes
      have nonempty := (Scanner.closingSize?_overtaken closes).1
      rw [itemsFrom]
      split
      next item found =>
        rcases scans.next found with ⟨of, behind, offset, passes, starts⟩
        rw [passes.2 0, List.drop_drop] at closes
        rcases Option.map_eq_some_iff.mp closes with ⟨left, isLeft, rfl⟩
        have stops : start + (offset + (value item).size) = (value item).stop := by
          rw [stop, starts, Nat.add_assoc]
        rw [stops] at isLeft
        rw [behind]
        refine ⟨by omega, of.nonempty, ?_⟩
        have later := induction isLeft
        have sameStop : (value item).stop + left - 1 =
            start + (left + (offset + (value item).size)) - 1 := by omega
        rwa [sameStop] at later
      next =>
        show start ≤ start + size - 1
        omega

theorem Scans.iterates (scans : Scans itemAt? value) (budget : Nat) : ∀ {start : Nat},
    source.length - start ≤ budget → Iterates itemAt? value start (source.drop start)
      (itemsFrom itemAt? value budget start (source.drop start)) := by
  induction budget with
  | zero =>
      intro start enough
      refine .ends ?_
      by_contra isFound
      rcases Option.ne_none_iff_exists'.mp isFound with ⟨item, found⟩
      rcases scans.next found with ⟨of, _, offset, _, starts⟩
      have inside := of.inside
      have nonempty := of.nonempty
      rw [stop] at inside
      omega
  | succ budget induction =>
      intro start enough
      rw [itemsFrom]
      split
      next item found =>
        rcases scans.next found with ⟨of, behind, offset, _, starts⟩
        refine .next found ?_
        rw [behind]
        refine induction ?_
        have nonempty := of.nonempty
        rw [stop]
        omega
      next nothing => exact .ends nothing

end Items

theorem scans_at : Scans at? id := by
  intro source start span found
  have isAt := of_at found
  exact ⟨isAt.1, 0, .nothing _, isAt.2⟩

/-- What a member is made of: a string, which is its name, then blanks, a colon and blanks, and then
its value. -/
theorem memberAt?_eq_some {start : Nat} {text : List UInt8} {member : List UInt8 × Span}
    (found : memberAt? start text = some member) :
    ∃ inner size rest, text = Scanner.quote :: inner ∧ Scanner.stringSize? inner = some size ∧
      (inner.drop size).drop (Scanner.blanks (inner.drop size)) = Scanner.colon :: rest ∧
      member.1 = Scanner.quote :: inner.take size ∧
      at? (start + 1 + size + Scanner.blanks (inner.drop size) + 1 + Scanner.blanks rest)
        (rest.drop (Scanner.blanks rest)) = some member.2 := by
  unfold memberAt? at found
  split at found
  next => cases found
  next byte inner =>
    split at found
    next isQuote =>
      simp only [Option.bind_eq_bind, Option.bind_eq_some_iff] at found
      rcases found with ⟨size, isSize, found⟩
      split at found
      next => cases found
      next mark rest behind =>
        split at found
        next isColon =>
          rcases Option.map_eq_some_iff.mp found with ⟨span, isAt, rfl⟩
          rw [eq_of_beq isColon] at behind
          rw [eq_of_beq isQuote]
          exact ⟨inner, size, rest, rfl, isSize, behind, rfl, isAt⟩
        next => cases found
    next => cases found

theorem memberAt?_sound {source : List UInt8} {start : Nat} {member : List UInt8 × Span}
    (found : memberAt? start (source.drop start) = some member) :
    2 ≤ member.1.length ∧ member.1 = (source.drop start).take member.1.length ∧
      ∃ gap, 0 < gap ∧ Passes (source.drop start) (member.1.length + gap) ∧
        at? (start + (member.1.length + gap)) (source.drop (start + (member.1.length + gap))) =
          some member.2 := by
  rcases memberAt?_eq_some found with ⟨inner, size, rest, isText, isSize, behind, isName, isAt⟩
  rcases Scanner.stringSize?_passed isSize with ⟨nonempty, within, _⟩
  have length : member.1.length = size + 1 := by
    rw [isName, List.length_cons, List.length_take, Nat.min_eq_left within]
  have colon : (source.drop start).drop (size + 1 + Scanner.blanks (inner.drop size)) =
      Scanner.colon :: rest := by
    rw [isText, ← List.drop_drop, List.drop_succ_cons, behind]
  have value : (source.drop start).drop (size + 1 + Scanner.blanks (inner.drop size) + 1) =
      rest := by
    rw [← List.drop_drop, colon, List.drop_succ_cons, List.drop_zero]
  have passesName : Passes (source.drop start) (size + 1) := by
    rw [isText]
    exact Scanner.passes_string isSize
  have passesBlanks : Passes (source.drop start) (size + 1 + Scanner.blanks (inner.drop size)) := by
    refine passesName.append ?_
    rw [isText, List.drop_succ_cons]
    exact Scanner.passes_blanks _
  have passesColon := passesBlanks.append (colon ▸ Scanner.passes_mark (by decide) rest)
  have passesAll : Passes (source.drop start)
      (size + 1 + Scanner.blanks (inner.drop size) + 1 + Scanner.blanks rest) := by
    refine passesColon.append ?_
    rw [value]
    exact Scanner.passes_blanks rest
  have behindAll : rest.drop (Scanner.blanks rest) = source.drop
      (start + (size + 1 + Scanner.blanks (inner.drop size) + 1 + Scanner.blanks rest)) := by
    rw [← List.drop_drop, ← List.drop_drop, value]
  refine ⟨by omega, by rw [length, isText, isName, List.take_succ_cons],
    Scanner.blanks (inner.drop size) + 1 + Scanner.blanks rest, by omega, ?_⟩
  have sameGap : member.1.length + (Scanner.blanks (inner.drop size) + 1 + Scanner.blanks rest) =
      size + 1 + Scanner.blanks (inner.drop size) + 1 + Scanner.blanks rest := by
    omega
  have sameStart : start + 1 + size + Scanner.blanks (inner.drop size) + 1 + Scanner.blanks rest =
      start + (size + 1 + Scanner.blanks (inner.drop size) + 1 + Scanner.blanks rest) := by
    omega
  rw [sameStart, behindAll] at isAt
  rw [sameGap]
  exact ⟨passesAll, isAt⟩

theorem scans_memberAt : Scans memberAt? Prod.snd := by
  intro source start member found
  rcases memberAt?_sound found with ⟨_, _, gap, _, passes, isAt⟩
  have ofValue := of_at isAt
  exact ⟨ofValue.1, _, passes, ofValue.2⟩

/-! ## Going down -/

section Of

variable {source : List UInt8} {span : Span}

theorem Of.closes (of : span.Of source) (container : span.kind.isContainer = true) :
    Scanner.closingSize? false 1 (source.drop (span.start + 1)) = some (span.size - 1) ∧
      span.text.drop 1 = source.drop (span.start + 1) := by
  have size := of.size
  have behind : span.text.drop 1 = source.drop (span.start + 1) := by
    rw [of.text, List.drop_drop]
  refine ⟨?_, behind⟩
  rw [← behind]
  rcases span with ⟨start, text, length⟩
  cases text with
  | nil => cases size
  | cons byte inner =>
      have opens : byte = 0x7B ∨ byte = 0x5B := by
        by_contra other
        rw [not_or] at other
        simp only [kind, beq_iff_eq, other, if_false] at container
        split_ifs at container <;> cases container
      have measured : Scanner.valueSize? (byte :: inner) =
          (Scanner.closingSize? false 1 inner).map (· + 1) := by
        rcases opens with rfl | rfl <;> rfl
      rw [measured] at size
      rcases Option.map_eq_some_iff.mp size with ⟨inside, isInside, rfl⟩
      exact isInside

theorem Of.items {α : Type} {itemAt? : Nat → List UInt8 → Option α} {value : α → Span}
    (of : span.Of source) (container : span.kind.isContainer = true)
    (scans : Scans itemAt? value) {items : List α} (same : items =
      itemsFrom itemAt? value span.text.length (span.start + 1) (span.text.drop 1)) :
    Chain (span.start + 1) (items.map value) (span.stop - 1) ∧
      Iterates itemAt? value (span.start + 1) (span.text.drop 1) items ∧
      ∀ item ∈ items, ∃ place, span.start < place ∧
        itemAt? place (source.drop place) = some item := by
  rcases of.closes container with ⟨closes, behind⟩
  have nonempty := (Scanner.closingSize?_overtaken closes).1
  have sameStop : span.stop - 1 = span.start + 1 + (span.size - 1) - 1 := by
    rw [stop]
    omega
  rw [same, behind, sameStop]
  refine ⟨scans.chain _ closes, scans.iterates _ ?_, fun item => scans.exists_of_mem _ _⟩
  rw [of.text, List.length_drop]
  omega

theorem Of.elements (of : span.Of source) (isArray : span.kind = .array) :
    Chain (span.start + 1) span.elements (span.stop - 1) ∧
      Iterates at? id (span.start + 1) (span.text.drop 1) span.elements ∧
      ∀ element ∈ span.elements, element.Of source := by
  have scanned : span.elements =
      itemsFrom at? id span.text.length (span.start + 1) (span.text.drop 1) := by
    rw [Span.elements, isArray]
  have items := of.items (isArray ▸ rfl) scans_at scanned
  rw [List.map_id] at items
  refine ⟨items.1, items.2.1, fun element there => ?_⟩
  rcases items.2.2 element there with ⟨place, _, found⟩
  exact (of_at found).1

theorem Of.members (of : span.Of source) (isObject : span.kind = .object) :
    Chain (span.start + 1) (span.members.map Prod.snd) (span.stop - 1) ∧
      Iterates memberAt? Prod.snd (span.start + 1) (span.text.drop 1) span.members ∧
      ∀ member ∈ span.members, ∃ place, span.start < place ∧
        memberAt? place (source.drop place) = some member :=
  of.items (isObject ▸ rfl) scans_memberAt (by rw [Span.members, isObject])

theorem Of.children (of : span.Of source) :
    (∀ child ∈ span.children, child.Of source) ∧
      (span.children = [] ∨ Chain (span.start + 1) span.children (span.stop - 1)) := by
  by_cases isArray : span.kind = .array
  · rw [children_of_array isArray]
    exact ⟨(of.elements isArray).2.2, .inr (of.elements isArray).1⟩
  · rw [children_of_not_array isArray]
    by_cases isObject : span.kind = .object
    · refine ⟨List.forall_mem_map.mpr fun member there => ?_, .inr (of.members isObject).1⟩
      rcases (of.members isObject).2.2 member there with ⟨place, _, found⟩
      exact (scans_memberAt _ _ _ found).1
    · rw [members_of_not_object isObject]
      exact ⟨List.forall_mem_nil _, .inl rfl⟩

theorem Of.child_inside (of : span.Of source) {child : Span} (there : child ∈ span.children) :
    span.start < child.start ∧ child.stop < span.stop ∧ 0 < child.size := by
  have nonempty := of.nonempty
  rcases of.children.2 with none | chain
  · rw [none] at there
    cases there
  · have bounds := chain.bounds.2 child there
    rw [stop, stop] at bounds ⊢
    omega

theorem Of.children_apart (of : span.Of source) :
    span.children.Pairwise fun left right => left.stop ≤ right.start := by
  rcases of.children.2 with none | chain
  · rw [none]
    exact .nil
  · rw [List.pairwise_iff_getElem]
    intro first second inFirst inSecond before
    exact chain.apart before (List.getElem?_eq_getElem inFirst)
      (List.getElem?_eq_getElem inSecond)

theorem leads_children {below : Span} (leads : Node.Leads span below) : below ∈ span.children := by
  cases leads with
  | @field name below found =>
      rcases Option.map_eq_some_iff.mp found with ⟨member, isLast, rfl⟩
      have there := (List.mem_filter.mp (List.mem_of_getLast? isLast)).1
      have isObject : span.kind = .object := by
        by_contra other
        rw [members_of_not_object other] at there
        cases there
      rw [children_of_not_array (isObject ▸ nofun)]
      exact List.mem_map_of_mem there
  | @element position below found =>
      have there : below ∈ span.elements := List.mem_of_getElem? found
      have isArray : span.kind = .array := by
        by_contra other
        rw [elements_of_not_array other] at there
        cases there
      rwa [children_of_array isArray]
  | child there => exact there

theorem Of.length_of_chain (below : List Span) : ∀ {span : Span}, span.Of source →
    List.IsChain Node.Leads (span :: below) → 2 * below.length < span.size := by
  induction below with
  | nil => exact fun of _ => of.nonempty
  | cons child below induction =>
      intro span of chained
      rw [List.isChain_cons_cons] at chained
      have there := leads_children chained.1
      have shorter := induction (of.children.1 child there) chained.2
      have inside := of.child_inside there
      rw [stop, stop] at inside
      rw [List.length_cons]
      omega

end Of

structure Safe (source : List UInt8) (span : Span) : Prop where
  text : span.text = source.drop span.start
  nonempty : 0 < span.size
  inside : span.stop ≤ source.length
  bytes_length : span.bytes.length = span.size
  children_inside : ∀ child ∈ span.children,
    span.start < child.start ∧ child.stop < span.stop ∧ 0 < child.size
  children_apart : span.children.Pairwise fun left right => left.stop ≤ right.start
  steps : ∀ below, Node.Leads span below → below ∈ span.children
  names : ∀ member ∈ span.members, 2 ≤ member.1.length ∧ ∃ place, span.start < place ∧
    place + member.1.length < member.2.start ∧
    member.1 = (source.drop place).take member.1.length
  elements_end : span.kind = .array →
    Iterates at? id (span.start + 1) (span.text.drop 1) span.elements
  members_end : span.kind = .object →
    Iterates memberAt? Prod.snd (span.start + 1) (span.text.drop 1) span.members
  ways_end : ∀ below, List.IsChain Node.Leads (span :: below) → 2 * below.length < span.size

theorem Of.safe {source : List UInt8} {span : Span} (of : span.Of source) : Safe source span where
  text := of.text
  nonempty := of.nonempty
  inside := of.inside
  bytes_length := by
    rw [bytes, List.length_take, Nat.min_eq_left (Scanner.passes_value of.size).2.1]
  children_inside _ := of.child_inside
  children_apart := of.children_apart
  steps _ := leads_children
  names := by
    intro member there
    have isObject : span.kind = .object := by
      by_contra other
      rw [members_of_not_object other] at there
      cases there
    rcases (of.members isObject).2.2 member there with ⟨place, after, found⟩
    rcases memberAt?_sound found with ⟨length, name, gap, nonempty, _, isAt⟩
    have starts := (of_at isAt).2
    exact ⟨length, place, after, by omega, name⟩
  elements_end isArray := (of.elements isArray).2.1
  members_end isObject := (of.members isObject).2.1
  ways_end below := of.length_of_chain below

/-- Whatever the bytes of a source are, every span that is reached from its root by members,
elements and children is safe. -/
theorem safe_of_reached {source : List UInt8} {root span : Span}
    (isRoot : root? source = some root) (reached : Relation.ReflTransGen Node.Leads root span) :
    Safe source span := by
  refine Of.safe ?_
  induction reached with
  | refl => exact of_root isRoot
  | tail _ leads of => exact of.children.1 _ (leads_children leads)

theorem safe_of_reached_mismatched :
    let source := Utf8.encode ['{', '"', 'a', '"', ':', '[', '1', '"', ']', '"', '2', '}', '}', '!']
    ∃ root span, root? source = some root ∧ Node.Leads root span ∧
      span.bytes = Utf8.encode ['[', '1', '"', ']', '"', '2', '}'] ∧ span.children.length = 3 ∧
      Safe source span := by
  intro source
  have isRoot : root? source = some ⟨0, source, 13⟩ := by cbv
  have isField : Node.field (⟨0, source, 13⟩ : Span) "a" = some ⟨5, source.drop 5, 7⟩ := by
    cbv
  exact ⟨_, _, isRoot, .field isField, by cbv, by cbv,
    safe_of_reached isRoot (.single (.field isField))⟩

end JsonQuery.Span
