import JsonQuery.Proofs.Path.Remaining
import JsonQuery.Proofs.Path.Wrapping

/-!
Where paths and filters are refused. Whatever the tokenizer or a reader complains about, it does so
at a place inside the very text that it was given: `refusals_located`.
-/

namespace JsonQuery.Lexer

/-! ## Places in a text -/

/-- The offset is one between two characters of the text, or at one of its ends. -/
def IsBoundary (text : List Char) (offset : Nat) : Prop :=
  ∃ before after, text = before ++ after ∧ Utf8.width before = offset

theorem IsBoundary.le {text : List Char} {offset : Nat} (boundary : IsBoundary text offset) :
    offset ≤ Utf8.width text := by
  obtain ⟨before, after, rfl, rfl⟩ := boundary
  rw [Utf8.width_append]
  exact Nat.le_add_right _ _

theorem IsBoundary.behind {text : List Char} {offset : Nat} (boundary : IsBoundary text offset)
    (lead : List Char) : IsBoundary (lead ++ text) (Utf8.width lead + offset) := by
  obtain ⟨before, after, rfl, rfl⟩ := boundary
  exact ⟨lead ++ before, after, (List.append_assoc lead before after).symm,
    Utf8.width_append lead before⟩

theorem isBoundary_start (text : List Char) : IsBoundary text 0 :=
  ⟨[], text, rfl, rfl⟩

/-- Every token begins at a boundary. -/
theorem LaidOut.boundary {position : Nat} {text : List Char} {tokens : List Token}
    (laidOut : LaidOut position text tokens) : ∀ token ∈ tokens,
      ∃ offset, IsBoundary text offset ∧ token.position = position + offset := by
  induction laidOut with
  | @finish position blanks =>
      refine List.forall_mem_singleton.mpr ⟨Utf8.width blanks, ?_, rfl⟩
      exact ⟨blanks, [], (List.append_nil blanks).symm, rfl⟩
  | @token position blanks source rest lexeme tokens _ _ _ induction =>
      refine List.forall_mem_cons.mpr ⟨?_, fun token member => ?_⟩
      · exact ⟨Utf8.width blanks, (isBoundary_start _).behind blanks, rfl⟩
      · obtain ⟨offset, boundary, stands⟩ := induction token member
        refine ⟨Utf8.width (blanks ++ source) + offset, ?_, ?_⟩
        · rw [← List.append_assoc]
          exact boundary.behind (blanks ++ source)
        · rw [stands, Nat.add_assoc]

/-! ## What the tokenizer refuses -/

theorem tokens_refuses : ∀ (budget depth position : Nat) (text : List Char),
    Ends (fun _ => True) (fun refusal =>
        ∃ offset, IsBoundary text offset ∧ refusal.position = position + offset)
      (tokens budget depth position text)
  | budget, depth, position, [] => by
      rw [tokens_nil]
      split
      next => exact trivial
      next => exact ⟨0, isBoundary_start [], rfl⟩
  | budget, depth, position, first :: text => by
      have here : ∃ offset, IsBoundary (first :: text) offset ∧ position = position + offset :=
        ⟨0, isBoundary_start _, rfl⟩
      cases blank : Text.isBlank first with
      | true =>
          rw [tokens_skip blank]
          refine (tokens_refuses budget depth _ text).imp (fun _ _ => trivial) ?_
          rintro refusal ⟨offset, boundary, stands⟩
          refine ⟨_, boundary.behind [first], ?_⟩
          rw [stands, Nat.add_assoc]
          rfl
      | false =>
          rw [tokens_cons blank]
          split
          next => exact here
          next => exact here
          next budget cut isCut =>
            split
            next => exact here
            next =>
              have others := tokens_refuses budget (depthAfter depth cut.lexeme)
                (position + Utf8.width cut.source) cut.rest
              refine (others.imp (fun _ _ => trivial) ?_).bind fun _ _ => trivial
              rintro refusal ⟨offset, boundary, stands⟩
              refine ⟨Utf8.width cut.source + offset, ?_, ?_⟩
              · rw [(cutAt?_splits isCut).split]
                exact boundary.behind cut.source
              · rw [stands, Nat.add_assoc]
termination_by budget _ _ text => (budget, text.length)

theorem tokenize_refuses (path : String) :
    Ends (fun _ => True) (fun refusal => IsBoundary path.toList refusal.position)
      (tokenize path) := by
  rw [tokenize_eq]
  split
  next rest marked =>
    refine ((tokens_refuses _ _ _ rest).imp (fun _ _ => trivial) ?_).bind fun _ _ => trivial
    rintro refusal ⟨offset, boundary, stands⟩
    rw [eq_of_afterRoot? marked, stands, Nat.add_assoc]
    exact (boundary.behind ['$']).behind _
  next =>
    refine (tokens_refuses _ _ _ path.toList).imp (fun _ _ => trivial) ?_
    rintro refusal ⟨offset, boundary, stands⟩
    rw [stands, Nat.zero_add]
    exact boundary

end JsonQuery.Lexer

namespace JsonQuery.Grammar

open Lexer (IsBoundary tokenize)

/-! ## What the readers refuse -/

theorem tokenize_marked {path : String} {tokens : List Token} (read : tokenize path = .ok tokens) :
    Marked tokens := by
  obtain ⟨others, same, _⟩ := (Lexer.tokenize_laidOut read).ends
  exact ⟨others, _, same⟩

/-- A reader whose faults leave tokens refuses texts where a token begins. -/
theorem readText_refuses {α : Type} {reader : List Token → Except Fault α} {text : String}
    (inside : ∀ tokens, tokenize text = .ok tokens → FaultsInside tokens (reader tokens)) :
    Ends (fun _ => True) (fun refusal => IsBoundary text.toList refusal.position)
      (readText reader text) := by
  unfold readText
  cases read : tokenize text with
  | error refusal =>
      have refused := Lexer.tokenize_refuses text
      rw [read] at refused
      exact refused
  | ok tokens =>
      refine Ends.mapError (inside tokens read) ?_
      rintro ⟨remaining, complaint⟩ ⟨isEnd, others, position, same⟩
      cases remaining with
      | nil => simp at same
      | cons token rest =>
          obtain ⟨offset, boundary, stands⟩ :=
            (Lexer.tokenize_laidOut read).boundary token (isEnd.subset List.mem_cons_self)
          have begins : IsBoundary text.toList token.position := by
            rwa [stands, Nat.zero_add]
          exact begins

theorem readText_fault {α : Type} {reader : List Token → Except Fault α} {text : String}
    {tokens : List Token} {fault : Fault} (read : tokenize text = .ok tokens)
    (refused : reader tokens = .error fault) :
    readText reader text = .error (fault.refusal (Utf8.width text.toList)) := by
  simp only [readText, read, bind, Except.bind, refused, Except.mapError]

theorem tokenize_wrapped {filter : String} {tokens : List Token}
    (read : tokenize ("[?(" ++ filter ++ ")]") = .ok tokens) : Leaves tokens (tokens.drop 3) := by
  obtain ⟨cut, same, spelled⟩ := Lexer.tokenize_sound read
  obtain ⟨others, rfl, _⟩ := spelled.wrapped
  have marked := tokenize_marked read
  simp only [List.cons_append, lexemes_eq_cons] at same
  obtain ⟨_, _, rfl, _, _, rfl, _, rest, rfl, _⟩ := same
  have first := marked.leaves nofun
  have second := first.marked.leaves nofun
  exact (first.trans second).trans (second.marked.leaves nofun)

end JsonQuery.Grammar

namespace JsonQuery

theorem begins_append {first text : String} (begins : first.toList <+: text.toList)
    (more : String) : first.toList <+: (text ++ more).toList := by
  rw [String.toList_append]
  exact begins.trans (List.prefix_append _ _)

/-- No complaint reads as if the text had only been cut short. That is so by the type alone, and it
says nothing of the readers; that none of them asks for a token behind the last one is what
`Grammar.FaultsInside` states. -/
theorem Complaint.message_ne (complaint : Complaint) :
    complaint.message ≠ "unexpected end of input" := by
  have apart (first : String) (begins : first.toList <+: complaint.message.toList)
      (different : ¬first.toList <+: "unexpected end of input".toList) :
      complaint.message ≠ "unexpected end of input" := by
    intro same
    rw [same] at begins
    exact different begins
  have whole {first : String} : first.toList <+: first.toList := List.prefix_rfl
  cases complaint with
  | unexpectedCharacter =>
      exact apart "unexpected character '" (begins_append (begins_append whole _) _) (by decide)
  | invalidNumber =>
      exact apart "invalid numeric literal '" (begins_append (begins_append whole _) _) (by decide)
  | notAnInteger =>
      exact apart "invalid numeric literal '" (begins_append (begins_append whole _) _) (by decide)
  | expected wanted found =>
      refine apart "expected " ?_ (by decide)
      cases found with
      | none => exact begins_append (begins_append whole _) _
      | some => exact begins_append (begins_append (begins_append (begins_append whole _) _) _) _
  | _ => exact nofun

/-- An answer, or an error of syntax at a place in this very text. Of the message it says no more
than `Complaint.message_ne`, which holds whatever the text is. -/
def Located {α : Type} (text : String) : Except QueryError α → Prop
  | .ok _ => True
  | .error (.malformed path position message) => path = text ∧
      Lexer.IsBoundary text.toList position ∧ position ≤ Utf8.width text.toList ∧
        message ≠ "unexpected end of input"
  | .error _ => False

theorem Located.boundary {α : Type} {text path message : String} {position : Nat}
    {outcome : Except QueryError α} (located : Located text outcome)
    (refused : outcome = .error (.malformed path position message)) :
    Lexer.IsBoundary text.toList position := by
  subst refused
  exact located.2.1

theorem located_of_refuses {α : Type} {text : String} {outcome : Except Refusal α}
    (refuses : Ends (fun _ => True)
      (fun refusal => Lexer.IsBoundary text.toList refusal.position) outcome) :
    Located text (outcome.mapError (QueryError.ofRefusal text)) := by
  cases outcome with
  | ok => exact trivial
  | error refusal => exact ⟨rfl, refuses, refuses.le, refusal.complaint.message_ne⟩

/-- Every text is read, or it is refused at a place inside itself. The readers never take the mark
of the end too early: with every fault there are tokens left, the last ones of the text. -/
theorem refusals_located :
    (∀ path, Located path (Query.parse path) ∧ ∀ tokens, Lexer.tokenize path = .ok tokens →
      Grammar.FaultsInside tokens (Grammar.readQuery tokens)) ∧
    (∀ filter, Located ("[?(" ++ filter ++ ")]") (Expression.parse filter) ∧
      ∀ tokens, Lexer.tokenize ("[?(" ++ filter ++ ")]") = .ok tokens →
        Grammar.Leaves tokens (tokens.drop 3) ∧
          Grammar.FaultsInside tokens (Grammar.readFilter tokens)) := by
  constructor
  · intro path
    have inside : ∀ tokens, Lexer.tokenize path = .ok tokens →
        Grammar.FaultsInside tokens (Grammar.readQuery tokens) :=
      fun tokens read => Grammar.readQuery_inside (Grammar.tokenize_marked read)
    exact ⟨located_of_refuses (Grammar.readText_refuses inside), inside⟩
  · intro filter
    have inside : ∀ tokens, Lexer.tokenize ("[?(" ++ filter ++ ")]") = .ok tokens →
        Grammar.Leaves tokens (tokens.drop 3) ∧
          Grammar.FaultsInside tokens (Grammar.readFilter tokens) := by
      intro tokens read
      have start := Grammar.tokenize_wrapped read
      exact ⟨start, Grammar.readFilter_inside start⟩
    refine ⟨located_of_refuses (Grammar.readText_refuses fun tokens read => ?_), inside⟩
    exact (inside tokens read).2

/-- The letter takes two bytes in each text: a bracket that was never opened, a descent without a
name, and a comparison whose right side is missing. -/
theorem refusals_located_accented :
    (Query.parse "é..]" = .error (.malformed "é..]" 4 "unmatched ']'") ∧
      Lexer.IsBoundary "é..]".toList 4) ∧
    (Query.parse "é//" =
        .error (.malformed "é//" 4 "expected a field name after '//', found end of input") ∧
      Lexer.IsBoundary "é//".toList 4) ∧
    (Expression.parse "@.é ==" =
        .error (.malformed "[?(@.é ==)]" 10
          "expected a literal, '@' reference or function call, found ')'") ∧
      Lexer.IsBoundary "[?(@.é ==)]".toList 10) := by
  have uncut : Lexer.tokenize "é..]" = .error ⟨4, .unmatchedClosing⟩ := by cbv
  have unopened : Query.parse "é..]" = .error (.malformed "é..]" 4 "unmatched ']'") := by
    rw [Query.parse, Grammar.readText, uncut]
    rfl
  have descent : Lexer.tokenize "é//" =
      .ok [⟨.name "é", 0⟩, ⟨.doubleSlash, 2⟩, ⟨.finish, 4⟩] := by cbv
  have unnamed : Query.parse "é//" =
      .error (.malformed "é//" 4 "expected a field name after '//', found end of input") := by
    have fault : Grammar.readQuery [⟨.name "é", 0⟩, ⟨.doubleSlash, 2⟩, ⟨.finish, 4⟩] =
        .error (Grammar.unmet .fieldAfterDoubleSlash [⟨.finish, 4⟩]) := by rfl
    rw [Query.parse, Grammar.readText_fault descent fault]
    rfl
  have comparison : Lexer.tokenize ("[?(" ++ "@.é ==" ++ ")]") =
      .ok [⟨.openBracket, 0⟩, ⟨.question, 1⟩, ⟨.openParenthesis, 2⟩, ⟨.current, 3⟩, ⟨.dot, 4⟩,
        ⟨.name "é", 5⟩, ⟨.equal, 8⟩, ⟨.closeParenthesis, 10⟩, ⟨.closeBracket, 11⟩,
        ⟨.finish, 12⟩] := by cbv
  have halved : Expression.parse "@.é ==" =
      .error (.malformed "[?(@.é ==)]" 10
        "expected a literal, '@' reference or function call, found ')'") := by
    have fault : Grammar.readFilter [⟨.openBracket, 0⟩, ⟨.question, 1⟩, ⟨.openParenthesis, 2⟩,
        ⟨.current, 3⟩, ⟨.dot, 4⟩, ⟨.name "é", 5⟩, ⟨.equal, 8⟩, ⟨.closeParenthesis, 10⟩,
        ⟨.closeBracket, 11⟩, ⟨.finish, 12⟩] =
        .error (Grammar.unmet .operand
          [⟨.closeParenthesis, 10⟩, ⟨.closeBracket, 11⟩, ⟨.finish, 12⟩]) := by rfl
    rw [Expression.parse, Grammar.readText_fault comparison fault]
    rfl
  have located (path : String) := (refusals_located.1 path).1
  have wrapped (filter : String) := (refusals_located.2 filter).1
  have whole : "[?(" ++ "@.é ==" ++ ")]" = "[?(@.é ==)]" := by decide
  refine ⟨⟨unopened, (located _).boundary unopened⟩, ⟨unnamed, (located _).boundary unnamed⟩,
    halved, ?_⟩
  rw [← whole]
  exact (wrapped _).boundary halved

end JsonQuery
