import JsonQuery.Proofs.Source.Scanning
import Mathlib.Data.List.TakeWhile

/-!
The scanner on any bytes, JSON or not. Whatever it takes for a value, a search for the closing
bracket of the container around it passes over: the two always agree on what is inside a string
and on how many brackets are open.
-/

namespace JsonQuery.Scanner

/-! ## Searches within searches -/

theorem stringSize?_passed {text : List UInt8} {size : Nat} (found : stringSize? text = some size) :
    0 < size ∧ size ≤ text.length ∧ ∀ depth, closingSize? true depth text =
      (closingSize? false depth (text.drop size)).map (· + size) := by
  fun_induction stringSize? text generalizing size with
  | case1 => cases found
  | case2 byte text isQuote =>
      cases found
      rw [eq_of_beq isQuote]
      exact ⟨Nat.one_pos, by simp, fun depth => closingSize?_quote true depth text⟩
  | case3 => cases found
  | case4 byte _ isBackslash escaped text induction =>
      rcases Option.map_eq_some_iff.mp found with ⟨inner, isInner, rfl⟩
      rcases induction isInner with ⟨_, within, passed⟩
      rw [eq_of_beq isBackslash]
      refine ⟨by omega, by simpa using within, fun depth => ?_⟩
      rw [closingSize?_escape, passed, Option.map_map]
      rfl
  | case5 byte text notQuote notBackslash induction =>
      rcases Option.map_eq_some_iff.mp found with ⟨inner, isInner, rfl⟩
      rcases induction isInner with ⟨_, within, passed⟩
      refine ⟨by omega, by simpa using within, fun depth => ?_⟩
      rw [closingSize?_inside (by simpa using notQuote) (by simpa using notBackslash), passed,
        Option.map_map]
      rfl

/-- A search in which more brackets are open goes on where a search with fewer has ended. -/
def Overtakes (inString : Bool) (depth : Nat) (text : List UInt8) (size : Nat) : Prop :=
  0 < size ∧ size ≤ text.length ∧ ∀ outer, closingSize? inString (depth + (outer + 1)) text =
    (closingSize? false (outer + 1) (text.drop size)).map (· + size)

/-- What holds behind the bytes of one round of a search holds before them. -/
theorem Overtakes.before {inString after : Bool} {depth deeper size more : Nat}
    {text : List UInt8} (overtakes : Overtakes after deeper (text.drop more) size)
    (within : more ≤ text.length)
    (round : ∀ outer, closingSize? inString (depth + (outer + 1)) text =
      (closingSize? after (deeper + (outer + 1)) (text.drop more)).map (· + more)) :
    Overtakes inString depth text (size + more) := by
  rcases overtakes with ⟨nonempty, fits, passed⟩
  rw [List.length_drop] at fits
  refine ⟨by omega, by omega, fun outer => ?_⟩
  rw [round, passed, Option.map_map, List.drop_drop, Nat.add_comm more]
  simp only [Function.comp_def, Nat.add_assoc]

theorem closingSize?_overtaken {inString : Bool} {depth : Nat} {text : List UInt8} {size : Nat}
    (found : closingSize? inString depth text = some size) :
    Overtakes inString depth text size := by
  fun_induction closingSize? inString depth text generalizing size with
  | case1 | case3 | case8 => cases found
  | case2 depth byte text isQuote induction =>
      rcases Option.map_eq_some_iff.mp found with ⟨inner, isInner, rfl⟩
      rw [eq_of_beq isQuote]
      exact (induction isInner).before (by simp) fun outer => closingSize?_quote true _ text
  | case4 depth byte _ isBackslash escaped text induction =>
      rcases Option.map_eq_some_iff.mp found with ⟨inner, isInner, rfl⟩
      rw [eq_of_beq isBackslash]
      exact (induction isInner).before (by simp) fun outer => closingSize?_escape _ escaped text
  | case5 depth byte text notQuote notBackslash induction =>
      rcases Option.map_eq_some_iff.mp found with ⟨inner, isInner, rfl⟩
      exact (induction isInner).before (by simp) fun outer =>
        closingSize?_inside (by simpa using notQuote) (by simpa using notBackslash) _ text
  | case6 depth byte text isQuote induction =>
      rcases Option.map_eq_some_iff.mp found with ⟨inner, isInner, rfl⟩
      rw [eq_of_beq isQuote]
      exact (induction isInner).before (by simp) fun outer => closingSize?_quote false _ text
  | case7 depth byte text _ opens induction =>
      rcases Option.map_eq_some_iff.mp found with ⟨inner, isInner, rfl⟩
      refine (induction isInner).before (by simp) fun outer => ?_
      rw [closingSize?_opening opens, Nat.add_right_comm]
      rfl
  | case9 byte text _ _ closes =>
      cases found
      refine ⟨Nat.one_pos, by simp, fun outer => ?_⟩
      rw [Nat.add_comm, closingSize?_closing closes]
      rfl
  | case10 byte text _ _ closes depth induction =>
      rcases Option.map_eq_some_iff.mp found with ⟨inner, isInner, rfl⟩
      refine (induction isInner).before (by simp) fun outer => ?_
      rw [Nat.succ_add, Nat.succ_add, closingSize?_closing closes]
      rfl
  | case11 depth byte text notQuote notOpening notClosing induction =>
      rcases Option.map_eq_some_iff.mp found with ⟨inner, isInner, rfl⟩
      exact (induction isInner).before (by simp) fun outer =>
        closingSize?_outside (by simpa using notQuote) (by simpa using notOpening)
          (by simpa using notClosing) _ text

/-! ## Passing over bytes -/

/-- A search for a closing bracket passes over the first bytes of a text. -/
def Passes (text : List UInt8) (size : Nat) : Prop :=
  size ≤ text.length ∧ ∀ depth, closingSize? false (depth + 1) text =
    (closingSize? false (depth + 1) (text.drop size)).map (· + size)

theorem Passes.nothing (text : List UInt8) : Passes text 0 :=
  ⟨Nat.zero_le _, fun _ => Option.map_id_apply.symm⟩

theorem Passes.append {text : List UInt8} {first second : Nat} (passes : Passes text first)
    (later : Passes (text.drop first) second) : Passes text (first + second) := by
  have fits := later.1
  rw [List.length_drop] at fits
  refine ⟨by have := passes.1; omega, fun depth => ?_⟩
  rw [passes.2, later.2, Option.map_map, List.drop_drop]
  simp only [Function.comp_def, Nat.add_comm, Nat.add_left_comm]

theorem Passes.of_forall {bytes : List UInt8} (plain : ∀ byte ∈ bytes,
      byte ≠ quote ∧ isOpening byte = false ∧ isClosing byte = false) (rest : List UInt8) :
    Passes (bytes ++ rest) bytes.length := by
  refine ⟨by simp, fun depth => ?_⟩
  rw [List.drop_left]
  exact closingSize?_balanced (.of_forall plain) depth rest

theorem Passes.takeWhile {test : UInt8 → Bool} (plain : ∀ byte, test byte = true →
      byte ≠ quote ∧ isOpening byte = false ∧ isClosing byte = false) (text : List UInt8) :
    Passes text (text.takeWhile test).length := by
  have passes : Passes (text.takeWhile test ++ text.dropWhile test) (text.takeWhile test).length :=
    of_forall (fun byte there => plain byte (List.mem_takeWhile_imp there)) _
  rwa [List.takeWhile_append_dropWhile] at passes

theorem passes_blanks (text : List UInt8) : Passes text (blanks text) := by
  refine .takeWhile (fun byte blank => ?_) text
  simp only [isBlank, Bool.or_eq_true, beq_iff_eq] at blank
  rcases blank with ((rfl | rfl) | rfl) | rfl <;> decide

theorem passes_mark {mark : UInt8} (plain : mark ≠ quote ∧ isOpening mark = false ∧
    isClosing mark = false) (rest : List UInt8) : Passes (mark :: rest) 1 := by
  have passes : Passes ([mark] ++ rest) [mark].length :=
    .of_forall (List.forall_mem_singleton.mpr plain) rest
  exact passes

theorem passes_separator (text : List UInt8) : Passes text (separator text) := by
  have before := passes_blanks text
  rw [separator]
  split
  next byte rest behind =>
    split
    next isComma =>
      rw [eq_of_beq isComma] at behind
      refine (before.append ?_).append ?_
      · rw [behind]
        exact passes_mark (by decide) rest
      · rw [← List.drop_drop, behind]
        exact passes_blanks rest
    next => exact before
  next => exact before

theorem passes_word {word text : List UInt8} {size : Nat} (nonempty : word ≠ [])
    (plain : ∀ byte ∈ word, byte ≠ quote ∧ isOpening byte = false ∧ isClosing byte = false)
    (found : wordSize? word text = some size) : 0 < size ∧ Passes text size := by
  rw [wordSize?] at found
  split at found
  next begins =>
    cases found
    rcases List.isPrefixOf_iff_prefix.mp begins with ⟨rest, rfl⟩
    exact ⟨List.length_pos_iff.mpr nonempty, .of_forall plain rest⟩
  next => cases found

/-- A search for a closing bracket passes over a string. -/
theorem passes_string {text : List UInt8} {size : Nat} (found : stringSize? text = some size) :
    Passes (quote :: text) (size + 1) := by
  rcases stringSize?_passed found with ⟨_, within, passed⟩
  refine ⟨by simpa using within, fun depth => ?_⟩
  rw [closingSize?_quote, Bool.not_false, passed, Option.map_map]
  rfl

theorem passes_container {byte : UInt8} (opens : isOpening byte = true) {text : List UInt8}
    {size : Nat} (found : closingSize? false 1 text = some size) :
    Passes (byte :: text) (size + 1) := by
  rcases closingSize?_overtaken found with ⟨_, within, passed⟩
  refine ⟨by simpa using within, fun depth => ?_⟩
  rw [closingSize?_opening opens, Nat.add_comm, passed, Option.map_map]
  rfl

/-- A search for a closing bracket passes over whatever the scanner takes for a value. -/
theorem passes_value {text : List UInt8} {size : Nat} (found : valueSize? text = some size) :
    0 < size ∧ Passes text size := by
  unfold valueSize? at found
  split at found
  next => cases found
  next byte text =>
    split_ifs at found with isQuote opens isTrue isFalse isNull begins
    · rcases Option.map_eq_some_iff.mp found with ⟨inner, isInner, rfl⟩
      rw [eq_of_beq isQuote]
      exact ⟨Nat.succ_pos _, passes_string isInner⟩
    · rcases Option.map_eq_some_iff.mp found with ⟨inner, isInner, rfl⟩
      exact ⟨Nat.succ_pos _, passes_container opens isInner⟩
    · exact passes_word (by decide) (by simp [trueWord, quote, isOpening, isClosing]) found
    · exact passes_word (by decide) (by simp [falseWord, quote, isOpening, isClosing]) found
    · exact passes_word (by decide) (by simp [nullWord, quote, isOpening, isClosing]) found
    · cases found
      have isNumber : isNumberByte byte = true := by
        simp only [Bool.or_eq_true, beq_iff_eq] at begins
        simp [isNumberByte, begins.symm]
      exact ⟨by omega, (passes_mark (plain_of_isNumberByte isNumber) text).append
        (.takeWhile (fun _ => plain_of_isNumberByte) text)⟩

end JsonQuery.Scanner
