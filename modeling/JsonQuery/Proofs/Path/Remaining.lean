import JsonQuery.Proofs.Path.Filters

/-!
What readers leave of the tokens. The tokens of a text end with a mark, and no reader takes it but
the one that looks for it when all else has been read. So tokens are left wherever a reader stops,
be it with an answer or with a fault.
-/

namespace JsonQuery.Grammar

/-! ## The end of the tokens -/

/-- The mark of the end stands last. -/
def Marked (tokens : List Token) : Prop :=
  ∃ others position, tokens = others ++ [⟨.finish, position⟩]

/-- What is left of the tokens is the end of them, with its mark. -/
structure Leaves (tokens rest : List Token) : Prop where
  isEnd : rest <:+ tokens
  marked : Marked rest

theorem Leaves.refl {tokens : List Token} (marked : Marked tokens) : Leaves tokens tokens :=
  ⟨List.suffix_rfl, marked⟩

theorem Leaves.trans {tokens middle rest : List Token} (first : Leaves tokens middle)
    (later : Leaves middle rest) : Leaves tokens rest :=
  ⟨later.isEnd.trans first.isEnd, later.marked⟩

theorem Marked.leaves {token : Token} {rest : List Token} (marked : Marked (token :: rest))
    (other : token.lexeme ≠ .finish) : Leaves (token :: rest) rest := by
  obtain ⟨others, position, same⟩ := marked
  cases others with
  | nil =>
      obtain ⟨rfl, _⟩ := List.cons.inj same
      exact absurd rfl other
  | cons first others =>
      obtain ⟨_, rfl⟩ := List.cons.inj same
      exact ⟨List.suffix_cons token _, others, position, rfl⟩

/-- A computation leaves some of the tokens with its answer, those that `left` tells, or with its
fault. -/
def Keeps {α : Type} (left : α → List Token) (tokens : List Token) (outcome : Except Fault α) :
    Prop :=
  Ends (fun answer => Leaves tokens (left answer)) (fun fault => Leaves tokens fault.remaining)
    outcome

/-- A reader that leaves the mark of the end where it is. -/
def Spares {α : Type} (reader : Reader α) : Prop :=
  ∀ tokens, Marked tokens → Keeps Prod.snd tokens (reader tokens)

section Keeping

variable {α β : Type} {left : α → List Token} {tokens : List Token} {outcome : Except Fault α}

theorem Leaves.keeps {rest : List Token} (leaves : Leaves tokens rest)
    (keeps : Keeps left rest outcome) : Keeps left tokens outcome :=
  keeps.imp (fun _ => leaves.trans) fun _ => leaves.trans

theorem Keeps.bind {later : β → List Token} {next : α → Except Fault β}
    (keeps : Keeps left tokens outcome)
    (others : ∀ answer, Marked (left answer) → Keeps later (left answer) (next answer)) :
    Keeps later tokens (outcome >>= next) :=
  Ends.bind keeps fun answer leaves => leaves.keeps (others answer leaves.marked)

/-- Any token but the mark of the end may be taken first. -/
theorem Marked.taken {token : Token} {rest : List Token} (marked : Marked (token :: rest))
    (other : token.lexeme ≠ .finish) (keeps : Marked rest → Keeps left rest outcome) :
    Keeps left (token :: rest) outcome :=
  (marked.leaves other).keeps (keeps (marked.leaves other).marked)

end Keeping

/-! ## Single tokens -/

theorem expect_keeps (lexeme : Lexeme) (wanted : Wanted) (other : lexeme ≠ .finish)
    {tokens : List Token} (marked : Marked tokens) :
    Keeps id tokens (expect lexeme wanted tokens) := by
  cases tokens with
  | nil => exact .refl marked
  | cons token rest =>
      rw [expect]
      split
      next same => exact marked.leaves (same ▸ other)
      next => exact .refl marked

theorem readName_spares (wanted : Wanted) : Spares (readName wanted) := by
  intro tokens marked
  cases tokens with
  | nil => exact .refl marked
  | cons token rest =>
      rw [readName]
      split
      next isName =>
        refine marked.leaves ?_
        intro isFinish
        rw [isFinish] at isName
        cases isName
      next => exact .refl marked

theorem integer_keeps (text : String) {tokens : List Token} (marked : Marked tokens) :
    Keeps (fun _ => tokens) tokens (integer text tokens) := by
  unfold integer
  split
  · exact .refl marked
  · exact .refl marked

/-! ## Operands -/

theorem readSegments_spares : Spares readSegments := by
  intro tokens
  fun_induction readSegments tokens with
  | case1 _ name _ rest induction =>
      intro marked
      refine marked.taken (by simp) fun marked => marked.taken (by simp) fun marked => ?_
      exact (induction marked).bind fun _ => .refl
  | case2 _ name _ rest induction =>
      intro marked
      refine marked.taken (by simp) fun marked => marked.taken (by simp) fun marked => ?_
      exact (induction marked).bind fun _ => .refl
  | case3 => exact fun marked => marked.taken (by simp) .refl
  | case4 _ name _ _ rest induction =>
      intro marked
      refine marked.taken (by simp) fun marked => marked.taken (by simp) fun marked => ?_
      exact marked.taken (by simp) fun marked => (induction marked).bind fun _ => .refl
  | case5 => exact fun marked => marked.taken (by simp) fun marked => marked.taken (by simp) .refl
  | case6 _ text _ _ rest induction =>
      intro marked
      refine marked.taken (by simp) fun marked => ?_
      refine (integer_keeps text marked).bind fun _ marked => ?_
      refine marked.taken (by simp) fun marked => marked.taken (by simp) fun marked => ?_
      exact (induction marked).bind fun _ => .refl
  | case7 _ text =>
      intro marked
      refine marked.taken (by simp) fun marked => ?_
      refine (integer_keeps text marked).bind fun _ marked => ?_
      exact marked.taken (by simp) .refl
  | case8 => exact fun marked => marked.taken (by simp) .refl
  | case9 => exact .refl

theorem readMoreArguments_spares {operand : Reader Expression} (spares : Spares operand)
    (budget : Nat) : Spares (readMoreArguments operand budget) := by
  induction budget with
  | zero => exact fun _ => .refl
  | succ budget induction =>
      intro tokens marked
      unfold readMoreArguments
      split
      next same =>
        cases same
        split
        next =>
          refine marked.taken (by simp) fun marked => (spares _ marked).bind fun _ marked => ?_
          exact (induction _ marked).bind fun _ => .refl
        next => exact .refl marked
      next => exact .refl marked

theorem readArguments_spares {operand : Reader Expression} (spares : Spares operand) :
    Spares (readArguments operand) := by
  intro tokens marked
  unfold readArguments
  split
  next =>
    refine (spares _ marked).bind fun _ marked => ?_
    refine (readMoreArguments_spares spares _ _ marked).bind fun _ marked => ?_
    exact (expect_keeps .closeParenthesis .argumentsEnd (by simp) marked).bind fun _ => .refl
  next => exact (expect_keeps .closeParenthesis .argumentsEnd (by simp) marked).bind fun _ => .refl

theorem readOperand_spares (nesting : Nat) : Spares (readOperand nesting) := by
  intro tokens marked
  unfold readOperand
  split
  iterate 4 next => exact marked.leaves (by simp)
  next =>
    split
    next => exact marked.leaves (by simp)
    next => exact .refl marked
  next =>
    refine marked.taken (by simp) fun marked => ?_
    exact (readSegments_spares _ marked).bind fun _ => .refl
  next nesting _ _ _ _ =>
    refine marked.taken (by simp) fun marked => marked.taken (by simp) fun marked => ?_
    exact (readArguments_spares (readOperand_spares nesting) _ marked).bind fun _ => .refl
  next => exact marked.taken (by simp) .refl
  next => exact .refl marked

/-! ## Filter expressions -/

theorem readComparison_spares {operand : Reader Expression} (spares : Spares operand) :
    Spares (readComparison operand) := by
  intro tokens marked
  refine (spares tokens marked).bind fun ⟨left, rest⟩ marked => ?_
  cases rest with
  | nil => exact .refl marked
  | cons token after =>
      dsimp only at marked ⊢
      split
      next operator compares =>
        have other : token.lexeme ≠ .finish := by
          intro isFinish
          rw [isFinish] at compares
          cases compares
        exact marked.taken other fun marked => (spares after marked).bind fun _ => .refl
      next => exact .refl marked

theorem readUnary_spares {inner operand : Reader Expression} (innerSpares : Spares inner)
    (operandSpares : Spares operand) : Spares (readUnary inner operand) := by
  intro tokens
  fun_induction readUnary inner operand tokens with
  | case1 _ rest induction =>
      intro marked
      exact marked.taken (by simp) fun marked => (induction marked).bind fun _ => .refl
  | case2 _ rest =>
      intro marked
      refine marked.taken (by simp) fun marked => (innerSpares _ marked).bind fun _ marked => ?_
      exact (expect_keeps .closeParenthesis .groupEnd (by simp) marked).bind fun _ => .refl
  | case3 tokens => exact readComparison_spares operandSpares tokens

theorem readJoined_spares {item : Reader Expression} (spares : Spares item) (joint : Lexeme)
    (other : joint ≠ .finish) (operator : Operator) (budget : Nat) :
    ∀ left, Spares (readJoined item joint operator budget left) := by
  induction budget with
  | zero => exact fun _ _ => .refl
  | succ budget induction =>
      intro left tokens marked
      cases tokens with
      | nil => exact .refl marked
      | cons token rest =>
          rw [readJoined]
          split
          next isJoint =>
            refine marked.taken (isJoint ▸ other) fun marked => ?_
            exact (spares rest marked).bind fun _ => induction _ _
          next => exact .refl marked

theorem readChain_spares {item : Reader Expression} (spares : Spares item) (joint : Lexeme)
    (other : joint ≠ .finish) (operator : Operator) :
    Spares (readChain item joint operator) :=
  fun tokens marked => (spares tokens marked).bind fun _ =>
    readJoined_spares spares joint other operator _ _ _

theorem readExpression_spares (nesting : Nat) : Spares (readExpression nesting) := by
  induction nesting with
  | zero => exact fun _ => .refl
  | succ nesting induction =>
      have unary := readUnary_spares induction (readOperand_spares (nesting + 1))
      have conjunction := readChain_spares unary .and (by simp) .and
      exact readChain_spares conjunction .or (by simp) .or

theorem readCondition_spares : Spares readCondition :=
  fun tokens => readExpression_spares (tokens.length + 1) tokens

/-! ## Brackets -/

theorem readBound_spares : Spares readBound := by
  intro tokens marked
  unfold readBound
  split
  next text _ _ =>
    exact (integer_keeps text marked).bind fun _ marked => marked.leaves (by simp)
  next => exact .refl marked

theorem readRange_spares : Spares readRange := by
  intro tokens marked
  refine Ends.bind (readBound_spares tokens marked) fun ⟨start, rest⟩ leaves => ?_
  dsimp only at leaves ⊢
  split
  next =>
    refine leaves.keeps (leaves.marked.taken (by simp) fun marked => ?_)
    refine (readBound_spares _ marked).bind fun ⟨stop, rest⟩ marked => ?_
    dsimp only at marked ⊢
    split
    next => exact .refl marked
    next => exact .refl marked
  next => exact leaves
  next => exact .refl marked

theorem readContent_spares : Spares readContent := by
  intro tokens marked
  unfold readContent
  split
  next =>
    refine marked.taken (by simp) fun marked => ?_
    refine (expect_keeps .openParenthesis .filterStart (by simp) marked).bind fun _ marked => ?_
    refine (readCondition_spares _ marked).bind fun _ marked => ?_
    exact (expect_keeps .closeParenthesis .filterEnd (by simp) marked).bind fun _ => .refl
  next => exact marked.leaves (by simp)
  next => exact marked.leaves (by simp)
  next => exact readRange_spares _ marked

theorem readBracket_spares : Spares readBracket := by
  intro tokens marked
  refine (readContent_spares tokens marked).bind fun _ marked => ?_
  exact (expect_keeps .closeBracket .bracketEnd (by simp) marked).bind fun _ => .refl

theorem readBrackets_spares (budget : Nat) : Spares (readBrackets budget) := by
  induction budget with
  | zero => exact fun _ => .refl
  | succ budget induction =>
      intro tokens marked
      unfold readBrackets
      split
      next same =>
        cases same
        refine marked.taken (by simp) fun marked => ?_
        refine (readBracket_spares _ marked).bind fun _ marked => ?_
        exact (induction _ marked).bind fun _ => .refl
      next => exact .refl marked

/-! ## Steps -/

theorem readAfterDoubleDot_spares : Spares readAfterDoubleDot := by
  intro tokens marked
  unfold readAfterDoubleDot
  split
  next => exact .refl marked
  next => exact .refl marked
  next => exact (readName_spares _ _ marked).bind fun _ => .refl

theorem readStep_spares : Spares readStep := by
  intro tokens marked
  unfold readStep
  split
  next => exact marked.leaves (by simp)
  next =>
    exact marked.taken (by simp) fun marked => (readName_spares _ _ marked).bind fun _ => .refl
  next => exact marked.taken (by simp) (readAfterDoubleDot_spares _)
  next =>
    exact marked.taken (by simp) fun marked => (readBracket_spares _ marked).bind fun _ => .refl
  next => exact (readName_spares _ _ marked).bind fun _ => .refl

theorem readStepEnd_keeps {tokens : List Token} (marked : Marked tokens) :
    Keeps id tokens (readStepEnd tokens) := by
  unfold readStepEnd
  split
  iterate 2 next => exact marked.leaves (by simp)
  all_goals exact .refl marked

theorem readSteps_spares (budget : Nat) : Spares (readSteps budget) := by
  induction budget with
  | zero => exact fun _ => .refl
  | succ budget induction =>
      intro tokens marked
      rw [readSteps]
      split
      next =>
        refine (readStep_spares _ marked).bind fun _ marked => ?_
        refine (readBrackets_spares _ _ marked).bind fun _ marked => ?_
        refine (readStepEnd_keeps marked).bind fun rest marked => ?_
        exact (induction rest marked).bind fun _ => .refl
      next => exact .refl marked

theorem skipRoot_leaves {tokens : List Token} (marked : Marked tokens) :
    Leaves tokens (skipRoot tokens) := by
  unfold skipRoot
  split
  next => exact marked.leaves (by simp)
  next => exact .refl marked

theorem skipSeparator_leaves {tokens : List Token} (marked : Marked tokens) :
    Leaves tokens (skipSeparator tokens) := by
  unfold skipSeparator
  split
  iterate 2 next => exact marked.leaves (by simp)
  next => exact .refl marked

/-! ## Whole texts -/

/-- With any fault of a reader of whole texts, some of the last tokens are left. -/
def FaultsInside {α : Type} (tokens : List Token) (outcome : Except Fault α) : Prop :=
  Ends (fun _ => True) (fun fault => Leaves tokens fault.remaining) outcome

theorem Keeps.inside {α β : Type} {left : α → List Token} {tokens : List Token}
    {outcome : Except Fault α} {next : α → Except Fault β} (keeps : Keeps left tokens outcome)
    (others : ∀ answer, Marked (left answer) → FaultsInside (left answer) (next answer)) :
    FaultsInside tokens (outcome >>= next) :=
  Ends.bind keeps fun answer leaves =>
    (others answer leaves.marked).imp (fun _ _ => trivial) fun _ => leaves.trans

theorem expect_inside (lexeme : Lexeme) (wanted : Wanted) {tokens : List Token}
    (marked : Marked tokens) : FaultsInside tokens (expect lexeme wanted tokens) := by
  cases tokens with
  | nil => exact .refl marked
  | cons token rest =>
      rw [expect]
      split
      next => exact trivial
      next => exact .refl marked

theorem readQuery_inside {tokens : List Token} (marked : Marked tokens) :
    FaultsInside tokens (readQuery tokens) := by
  have noRoot := skipRoot_leaves marked
  have start := noRoot.trans (skipSeparator_leaves noRoot.marked)
  have keeps := readSteps_spares (skipSeparator (skipRoot tokens)).length _ start.marked
  refine (start.keeps keeps).inside fun ⟨_, rest⟩ marked => ?_
  exact (expect_inside .finish .pathStep marked).bind fun _ _ => trivial

theorem readFilter_inside {tokens : List Token} (start : Leaves tokens (tokens.drop 3)) :
    FaultsInside tokens (readFilter tokens) := by
  have keeps := readCondition_spares _ start.marked
  refine (start.keeps keeps).inside fun ⟨_, rest⟩ marked => ?_
  refine (expect_keeps .closeParenthesis .groupEnd (by simp) marked).inside fun _ marked => ?_
  refine (expect_keeps .closeBracket .bracketEnd (by simp) marked).inside fun _ marked => ?_
  exact (expect_inside .finish .expressionEnd marked).bind fun _ _ => trivial

end JsonQuery.Grammar
