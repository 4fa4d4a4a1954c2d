import Somr.Compiler.ParserSteps

/-!
Owns the proof that the parser accepts the grammar and generates what the grammar
prescribes.

Each procedure is run on the tokens of a syntax tree followed by tokens that
cannot continue it. It consumes exactly the tree, prints nothing, and extends the
compilation by what `generate` answers for the tree. Eight calls for each token
are enough.
-/

namespace Somr.Compiler

open Somr.Foundation

namespace Parser

/-! ### What recognizing a tree means -/

def RecognizesPrimary (tree : Primary) : Prop :=
  ∀ (parser : Parser) (calls : Nat) (tokens : List Token), parser.Opened →
    8 * tree.tokens.length ≤ calls →
    (primary calls).run (parser.reading (tree.tokens ++ tokens)) =
      ⟨.ok tree.isSuper, (parser.extend (tree.generate parser.environment)).reading tokens, []⟩

def RecognizesExpression (tree : Expression) : Prop :=
  ∀ (parser : Parser) (calls : Nat) (tokens : List Token), parser.Opened →
    8 * tree.tokens.length + 3 ≤ calls → EndsExpression tokens →
    (expression calls).run (parser.reading (tree.tokens ++ tokens)) =
      ⟨.ok (), (parser.extend (tree.generate parser.environment)).reading tokens, []⟩

def RecognizesBinaries (tree : Binaries) : Prop :=
  ∀ (super : Bool) (parser : Parser) (calls : Nat) (tokens : List Token), parser.Opened →
    8 * tree.tokens.length + 2 ≤ calls → headSym tokens ≠ .identifier →
    (headSym tokens).isBinaryOperator = false →
    (binaryMessages calls super).run (parser.reading (tree.tokens ++ tokens)) =
      ⟨.ok (), (parser.extend (tree.generate parser.environment super)).reading tokens, []⟩

/-- The arguments of a keyword message that has at least one. -/
def RecognizesKeywords (tree : Keywords) : Prop :=
  ∀ (parser : Parser) (calls : Nat) (tokens : List Token), parser.Opened →
    8 * tree.tokens.length ≤ calls → (headSym tokens).startsMessage = false →
    tree.isDone = false →
    (keywordArguments calls).run (parser.reading (tree.tokens ++ tokens)) =
      ⟨.ok tree.selector, (parser.extend (tree.generate parser.environment)).reading tokens, []⟩

/-! ### Operands and messages -/

theorem Primary.tokens_ne_nil (tree : Primary) : 0 < tree.tokens.length := by
  cases tree with
  | name identifier => exact Nat.one_pos
  | term expression => rw [Primary.tokens]; simp
  | block parameters locals body => rw [Primary.tokens]; simp
  | literal source => cases source <;> simp [Primary.tokens, LiteralSource.tokens]

theorem binaryOperand_apply {tree : Primary} (recognizes : RecognizesPrimary tree)
    (unaries : List Identifier) {parser : Parser} {calls : Nat} {tokens : List Token}
    (opened : parser.Opened)
    (enough : 8 * tree.tokens.length + unaries.length + 1 ≤ calls)
    (stops : headSym tokens ≠ .identifier) :
    (binaryOperand calls).run
        (parser.reading (tree.tokens ++ (unaries.map Identifier.token ++ tokens))) =
      ⟨.ok tree.isSuper, (parser.extend ((tree.generate parser.environment).andThen
        (.actions (unaryActions true tree.isSuper unaries)))).reading tokens, []⟩ := by
  obtain ⟨calls, rfl⟩ : ∃ more, calls = more + 1 := ⟨calls - 1, by omega⟩
  have positive := Primary.tokens_ne_nil tree
  rw [binaryOperand, Process.bind_of_silent (recognizes _ _ _ opened (by omega)),
    Process.bind_of_silent (unaryMessages_apply true unaries stops _ _ _
      (extend_opened _ _) (by omega)), extend_andThen, extend_actions]
  rfl

theorem emitMessage_apply (super : Bool) (name : String) (parser : Parser) :
    (emitMessage super name).run parser =
      ⟨.ok (), parser.perform [.emit (sendInstruction super name)], []⟩ := by
  cases super <;> rfl

theorem recognizes_done_binaries : RecognizesBinaries .done := by
  intro super parser calls tokens opened enough stops noOperator
  obtain ⟨calls, rfl⟩ : ∃ more, calls = more + 1 := ⟨calls - 1, by omega⟩
  rw [Binaries.tokens, List.nil_append, binaryMessages, sym_bind, noOperator, Binaries.generate,
    extend_actions, perform_nil opened]
  rfl

theorem recognizes_binary_message (operator : Operator) {operand : Primary}
    (unaries : List Identifier) {rest : Binaries} (recognizes : RecognizesPrimary operand)
    (later : RecognizesBinaries rest) :
    RecognizesBinaries (.message operator operand unaries rest) := by
  intro super parser calls tokens opened enough stops noOperator
  obtain ⟨calls, rfl⟩ : ∃ more, calls = more + 1 := ⟨calls - 1, by omega⟩
  obtain ⟨calls, rfl⟩ : ∃ more, calls = more + 1 := ⟨calls - 1, by omega⟩
  have size : (Binaries.message operator operand unaries rest).tokens.length =
      operand.tokens.length + unaries.length + rest.tokens.length + 1 := by
    simp [Binaries.tokens]
    omega
  have follows : headSym (rest.tokens ++ tokens) ≠ .identifier := by
    rcases headSym_binaries rest tokens with same | operator
    · rw [same]
      exact stops
    · intro named
      rw [named] at operator
      exact absurd operator (by decide)
  have message : (binaryMessage (calls + 1) super).run
      (parser.reading (operator.token :: (operand.tokens ++
        (unaries.map Identifier.token ++ (rest.tokens ++ tokens))))) =
      ⟨.ok (), (((parser.perform [.addLiteralIfAbsent (.symbol operator.token.text)]).extend
        (operand.generate parser.environment)).perform
          (unaryActions true operand.isSuper unaries ++
            [.emit (sendInstruction super operator.token.text)])).reading
              (rest.tokens ++ tokens), []⟩ := by
    rw [binaryMessage, Process.bind_of_silent (binarySelector_apply _ (Or.inl operator.operator)),
      modifyMgenc_bind, reading_updateMgenc]
    have operandRun := binaryOperand_apply recognizes unaries
      (perform_opened parser [.addLiteralIfAbsent (.symbol operator.token.text)])
      (show _ ≤ calls by omega) follows
    rw [perform_environment _ opened, extend_andThen, extend_actions] at operandRun
    rw [show parser.updateMgenc (·.addLiteralIfAbsent (.symbol operator.token.text)) =
      parser.perform [.addLiteralIfAbsent (.symbol operator.token.text)] from rfl,
      Process.bind_of_silent operandRun, emitMessage_apply, reading_perform, perform_perform]
  have operatorHead : headSym ((Binaries.message operator operand unaries rest).tokens ++
      tokens) = operator.token.sym := rfl
  rw [binaryMessages, sym_bind, operatorHead, if_pos operator.operator,
    show (Binaries.message operator operand unaries rest).tokens ++ tokens =
      operator.token :: (operand.tokens ++ (unaries.map Identifier.token ++
        (rest.tokens ++ tokens))) by simp [Binaries.tokens],
    Process.bind_of_silent message, later _ _ _ _ (perform_opened _ _) (by omega) stops noOperator]
  simp [Binaries.generate, extend_andThen, opened]

/-- The keyword arguments from their first operand on. -/
theorem recognizes_keyword_message (keyword : Keyword) {operand : Primary}
    (unaries : List Identifier) {binaries : Binaries} {rest : Keywords}
    (recognizes : RecognizesPrimary operand) (messages : RecognizesBinaries binaries)
    (later : RecognizesKeywords rest) :
    RecognizesKeywords (.message keyword operand unaries binaries rest) := by
  intro parser calls tokens opened enough stops _
  have size : (Keywords.message keyword operand unaries binaries rest).tokens.length =
      operand.tokens.length + unaries.length + binaries.tokens.length + rest.tokens.length + 1 := by
    simp [Keywords.tokens]
    omega
  obtain ⟨calls, rfl⟩ : ∃ more, calls = more + 1 := ⟨calls - 1, by omega⟩
  obtain ⟨calls, rfl⟩ : ∃ more, calls = more + 1 := ⟨calls - 1, by omega⟩
  obtain ⟨noIdentifier, noKeyword, noOperator⟩ := (startsMessage_eq_false_iff _).mp stops
  have behind : headSym (rest.tokens ++ tokens) ≠ .identifier ∧
      (headSym (rest.tokens ++ tokens)).isBinaryOperator = false := by
    rw [headSym_keywords]
    split
    · exact ⟨noIdentifier, noOperator⟩
    · decide
  have follows : headSym (binaries.tokens ++ (rest.tokens ++ tokens)) ≠ .identifier := by
    rcases headSym_binaries binaries (rest.tokens ++ tokens) with same | operator
    · rw [same]
      exact behind.1
    · intro named
      rw [named] at operator
      exact absurd operator (by decide)
  have argument : (formula (calls + 1)).run (parser.reading (operand.tokens ++
      (unaries.map Identifier.token ++ (binaries.tokens ++ (rest.tokens ++ tokens))))) =
      ⟨.ok (), ((parser.extend (operand.generate parser.environment)).perform
        (unaryActions true operand.isSuper unaries) |>.extend
          (binaries.generate parser.environment operand.isSuper)).reading
            (rest.tokens ++ tokens), []⟩ := by
    have operandRun := binaryOperand_apply recognizes unaries opened
      (show _ ≤ calls by omega) follows
    rw [extend_andThen, extend_actions] at operandRun
    rw [formula, Process.bind_of_silent operandRun,
      messages _ _ _ _ (perform_opened _ _) (by omega) behind.1 behind.2,
      perform_environment _ (extend_opened _ _), extend_environment _ opened]
  rw [keywordArguments,
    show (Keywords.message keyword operand unaries binaries rest).tokens ++ tokens =
      keyword.token :: (operand.tokens ++ (unaries.map Identifier.token ++ (binaries.tokens ++
        (rest.tokens ++ tokens)))) by simp [Keywords.tokens],
    Process.bind_of_silent (keyword_apply _ keyword.sym_token),
    Process.bind_of_silent argument, sym_bind, headSym_keywords]
  by_cases done : rest.isDone = true
  · cases rest with
    | message => simp [Keywords.isDone] at done
    | done =>
        rw [if_pos done, if_neg noKeyword]
        simp [Keywords.generate, extend_andThen, Keywords.selector, Keywords.tokens,
          Keyword.token, perform_nil]
  · rw [if_neg done, if_pos rfl, Process.bind_of_silent (later _ _ _ (extend_opened _ _)
      (by omega) stops (Bool.eq_false_iff.mpr done))]
    simp [Keywords.generate, extend_andThen, Keywords.selector, Keyword.token, opened]

theorem keywordMessage_apply {keywords : Keywords} (recognizes : RecognizesKeywords keywords)
    (super : Bool) {parser : Parser} {calls : Nat} {tokens : List Token}
    (opened : parser.Opened) (enough : 8 * keywords.tokens.length + 1 ≤ calls)
    (stops : (headSym tokens).startsMessage = false) (some : keywords.isDone = false) :
    (keywordMessage calls super).run (parser.reading (keywords.tokens ++ tokens)) =
      ⟨.ok (), ((parser.extend (keywords.generate parser.environment)).perform
        (keywords.sendActions super)).reading tokens, []⟩ := by
  obtain ⟨calls, rfl⟩ : ∃ more, calls = more + 1 := ⟨calls - 1, by omega⟩
  cases keywords with
  | done => simp [Keywords.isDone] at some
  | message keyword operand unaries binaries rest =>
      rw [keywordMessage, Process.bind_of_silent (recognizes _ _ _ opened (by omega) stops some),
        symbolFor_bind, modifyMgenc_bind, reading_updateMgenc, emitMessage_apply]
      rfl

/-- The keyword message behind the other messages, where there is one. -/
theorem keywordTail_apply {keywords : Keywords} (recognizes : RecognizesKeywords keywords)
    (super : Bool) {parser : Parser} {calls : Nat} {tokens : List Token}
    (opened : parser.Opened) (enough : 8 * keywords.tokens.length + 1 ≤ calls)
    (stops : (headSym tokens).startsMessage = false) :
    (do if (← sym) = .keyword then keywordMessage calls super : ParserM Unit).run
        (parser.reading (keywords.tokens ++ tokens)) =
      ⟨.ok (), ((parser.extend (keywords.generate parser.environment)).perform
        (keywords.sendActions super)).reading tokens, []⟩ := by
  rw [sym_bind, headSym_keywords]
  by_cases done : keywords.isDone = true
  · cases keywords with
    | message => simp [Keywords.isDone] at done
    | done =>
        rw [if_pos done, if_neg ((startsMessage_eq_false_iff _).mp stops).2.1]
        simp [Keywords.generate, Keywords.sendActions, Keywords.tokens, perform_nil opened]
  · rw [if_neg done, if_pos rfl, keywordMessage_apply recognizes super opened enough stops
      (Bool.eq_false_iff.mpr done)]

/-- Everything of an expression behind its primary. -/
def messagesGenerator (environment : Environment) (super : Bool) (unaries : List Identifier)
    (binaries : Binaries) (keywords : Keywords) : Generator :=
  (Generator.actions (unaryActions false super unaries)).andThen
  ((binaries.generate environment (super && unaries.isEmpty)).andThen
  ((keywords.generate environment).andThen
  (.actions (keywords.sendActions (super && unaries.isEmpty && binaries.isDone)))))

theorem messages_apply (unaries : List Identifier) {binaries : Binaries} {keywords : Keywords}
    (first : RecognizesBinaries binaries) (second : RecognizesKeywords keywords) (super : Bool)
    {parser : Parser} {calls : Nat} {tokens : List Token} (opened : parser.Opened)
    (enough : 8 * (unaries.length + binaries.tokens.length + keywords.tokens.length) + 5 ≤ calls)
    (ends : EndsExpression tokens)
    (some : (unaries.isEmpty && binaries.isDone && keywords.isDone) = false) :
    (messages calls super).run (parser.reading
        (unaries.map Identifier.token ++ (binaries.tokens ++ (keywords.tokens ++ tokens)))) =
      ⟨.ok (), (parser.extend (messagesGenerator parser.environment super unaries binaries
        keywords)).reading tokens, []⟩ := by
  obtain ⟨calls, rfl⟩ : ∃ more, calls = more + 1 := ⟨calls - 1, by omega⟩
  obtain ⟨noIdentifier, noKeyword, noOperator⟩ :=
    (startsMessage_eq_false_iff _).mp ends.noMessage
  have behind : headSym (keywords.tokens ++ tokens) ≠ .identifier ∧
      (headSym (keywords.tokens ++ tokens)).isBinaryOperator = false := by
    rw [headSym_keywords]
    split
    · exact ⟨noIdentifier, noOperator⟩
    · decide
  have follows : headSym (binaries.tokens ++ (keywords.tokens ++ tokens)) ≠ .identifier := by
    rcases headSym_binaries binaries (keywords.tokens ++ tokens) with same | operator
    · rw [same]
      exact behind.1
    · intro named
      rw [named] at operator
      exact absurd operator (by decide)
  rw [messages, sym_bind, headSym_unaries]
  cases unaries with
  | cons selector rest =>
      rw [List.isEmpty_cons, if_neg Bool.false_ne_true, if_pos rfl,
        Process.bind_of_silent (unaryMessages_apply false (selector :: rest) follows _ _ _ opened
          (by omega)),
        Process.bind_of_silent (first _ _ _ _ (perform_opened _ _) (by omega) behind.1 behind.2),
        keywordTail_apply second _ (extend_opened _ _) (by omega) ends.noMessage]
      simp [messagesGenerator, extend_andThen, opened]
  | nil =>
      rw [List.isEmpty_nil, if_pos rfl, if_neg follows, List.map_nil, List.nil_append, sym_bind]
      cases binaries with
      | message operator operand unaries rest =>
          have isOperator : (headSym ((Binaries.message operator operand unaries rest).tokens ++
              (keywords.tokens ++ tokens))).isBinaryOperator = true := operator.operator
          rw [if_pos isOperator,
            Process.bind_of_silent (first _ _ _ _ opened (by omega) behind.1 behind.2),
            keywordTail_apply second _ (extend_opened _ _) (by omega) ends.noMessage]
          simp [messagesGenerator, extend_andThen, opened, unaryActions, perform_nil,
            Binaries.isDone]
      | done =>
          rw [Binaries.tokens, List.nil_append, if_neg (by rw [behind.2]; decide),
            keywordMessage_apply second _ opened (by omega) ends.noMessage
              (by simpa [Binaries.isDone] using some)]
          simp [messagesGenerator, extend_andThen, opened, unaryActions, perform_nil,
            Binaries.isDone, Binaries.generate]

/-! ### Expressions -/

/-- An expression without targets. -/
def valueTokens (head : Primary) (unaries : List Identifier) (binaries : Binaries)
    (keywords : Keywords) : List Token :=
  head.tokens ++ (unaries.map Identifier.token ++ (binaries.tokens ++ keywords.tokens))

theorem evaluation_apply {head : Primary} (unaries : List Identifier) {binaries : Binaries}
    {keywords : Keywords} (recognizes : RecognizesPrimary head)
    (first : RecognizesBinaries binaries) (second : RecognizesKeywords keywords)
    {parser : Parser} {calls : Nat} {tokens : List Token} (opened : parser.Opened)
    (enough : 8 * (valueTokens head unaries binaries keywords).length + 1 ≤ calls)
    (ends : EndsExpression tokens) :
    (evaluation calls).run
        (parser.reading (valueTokens head unaries binaries keywords ++ tokens)) =
      ⟨.ok (), (parser.extend ((head.generate parser.environment).andThen
        (messagesGenerator parser.environment head.isSuper unaries binaries
          keywords))).reading tokens, []⟩ := by
  obtain ⟨calls, rfl⟩ : ∃ more, calls = more + 1 := ⟨calls - 1, by omega⟩
  have positive := Primary.tokens_ne_nil head
  simp only [valueTokens, List.length_append, List.length_map] at enough
  rw [show valueTokens head unaries binaries keywords ++ tokens =
      head.tokens ++ (unaries.map Identifier.token ++ (binaries.tokens ++
        (keywords.tokens ++ tokens))) by simp [valueTokens],
    evaluation, Process.bind_of_silent (recognizes _ _ _ opened (by omega)), sym_bind]
  by_cases none : (unaries.isEmpty && binaries.isDone && keywords.isDone) = true
  · rw [Bool.and_eq_true, Bool.and_eq_true] at none
    obtain ⟨⟨noUnary, noBinary⟩, noKeyword⟩ := none
    obtain rfl := List.isEmpty_iff.mp noUnary
    cases binaries with
    | message => simp [Binaries.isDone] at noBinary
    | done =>
        cases keywords with
        | message => simp [Keywords.isDone] at noKeyword
        | done =>
            simp only [List.map_nil, Binaries.tokens, Keywords.tokens, List.nil_append]
            rw [ends.noMessage]
            simp [messagesGenerator, extend_andThen, unaryActions, perform_nil, Binaries.generate,
              Keywords.generate, Keywords.sendActions]
  · have message : (headSym (unaries.map Identifier.token ++ (binaries.tokens ++
        (keywords.tokens ++ tokens)))).startsMessage = true := by
      cases unaries with
      | cons selector rest => rfl
      | nil =>
          cases binaries with
          | message operator operand unaries rest =>
              show operator.token.sym.startsMessage = true
              rw [Symbol.startsMessage, operator.operator, Bool.or_true]
          | done =>
              cases keywords with
              | message keyword operand unaries binaries rest => rfl
              | done => exact absurd rfl none
    rw [if_pos message, messages_apply unaries first second _ (extend_opened _ _) (by omega) ends
      (Bool.eq_false_iff.mpr none), extend_environment _ opened, extend_andThen]

/-! ### First tokens -/

theorem Primary.head_starts (head : Primary) (tokens : List Token) :
    expressionStarts.contains (headSym (head.tokens ++ tokens)) = true := by
  cases head with
  | name identifier => rfl
  | term expression => rfl
  | block parameters locals body => rfl
  | literal source => cases source <;> rfl

theorem Expression.head_starts (expression : Expression) (tokens : List Token) :
    expressionStarts.contains (headSym (expression.tokens ++ tokens)) = true := by
  obtain ⟨targets, primary, unaries, binaries, keywords⟩ := expression
  cases targets with
  | nil =>
      rw [Expression.tokens, targetTokens, List.flatMap_nil, List.nil_append]
      simp only [List.append_assoc]
      exact Primary.head_starts primary _
  | cons target rest => rfl

theorem ne_of_expressionStarts {sym other : Symbol} (starts : expressionStarts.contains sym = true)
    (differs : expressionStarts.contains other = false) : sym ≠ other := by
  rintro rfl
  rw [starts] at differs
  exact absurd differs (by decide)

/-- A body begins with a return, with an expression, or is empty. -/
theorem Body.head (body : Body) (tokens : List Token) :
    headSym (body.tokens ++ tokens) = headSym tokens ∧ body = .empty ∨
      headSym (body.tokens ++ tokens) = .exit ∨
      expressionStarts.contains (headSym (body.tokens ++ tokens)) = true := by
  cases body with
  | empty => exact Or.inl ⟨rfl, rfl⟩
  | result value period => exact Or.inr (Or.inl rfl)
  | last value => exact Or.inr (Or.inr (Expression.head_starts value tokens))
  | statement value rest =>
      refine Or.inr (Or.inr ?_)
      rw [Body.tokens, List.append_assoc]
      exact Expression.head_starts value _

theorem Body.head_ne (body : Body) {tokens : List Token} {other : Symbol}
    (ends : headSym tokens ≠ other) (noExit : Symbol.exit ≠ other)
    (differs : expressionStarts.contains other = false) :
    headSym (body.tokens ++ tokens) ≠ other := by
  rcases Body.head body tokens with ⟨same, -⟩ | same | starts
  · rw [same]
    exact ends
  · rw [same]
    exact noExit
  · exact ne_of_expressionStarts starts differs

/-- A primary is never followed by an assignment, unless what follows it is one. -/
theorem Primary.second_ne_assign (head : Primary) {tokens : List Token}
    (behind : headSym tokens ≠ .assign) : headSym (head.tokens ++ tokens).tail ≠ .assign := by
  cases head with
  | name identifier => exact behind
  | term expression =>
      rw [show ((Primary.term expression).tokens ++ tokens).tail =
        expression.tokens ++ (Token.endTerm :: tokens) by simp [Primary.tokens]]
      exact ne_of_expressionStarts (Expression.head_starts _ _) rfl
  | block parameters locals body =>
      rw [show ((Primary.block parameters locals body).tokens ++ tokens).tail =
        parameterTokens parameters ++ (barredTokens locals ++
          (body.tokens ++ (Token.endBlock :: tokens))) by simp [Primary.tokens]]
      cases parameters with
      | cons parameter rest => exact Symbol.noConfusion
      | nil =>
          cases locals with
          | some names => exact Symbol.noConfusion
          | none => exact Body.head_ne body Symbol.noConfusion Symbol.noConfusion rfl
  | literal source =>
      cases source with
      | integer digits => exact behind
      | negative digits => exact Symbol.noConfusion
      | string chars => exact behind
      | symbol selector =>
          intro named
          have impossible := selector.named
          rw [show selector.token.sym = .assign from named] at impossible
          exact absurd impossible (by decide)
      | symbolString chars => exact Symbol.noConfusion

theorem valueTokens_second (head : Primary) (unaries : List Identifier) (binaries : Binaries)
    (keywords : Keywords) {tokens : List Token} (ends : EndsExpression tokens) :
    headSym (valueTokens head unaries binaries keywords ++ tokens).tail ≠ .assign := by
  rw [show valueTokens head unaries binaries keywords ++ tokens =
    head.tokens ++ (unaries.map Identifier.token ++ (binaries.tokens ++
      (keywords.tokens ++ tokens))) by simp [valueTokens]]
  refine Primary.second_ne_assign head ?_
  cases unaries with
  | cons selector rest => exact Symbol.noConfusion
  | nil =>
      cases binaries with
      | message operator operand unaries rest => exact Operator.ne_assign operator
      | done =>
          cases keywords with
          | message keyword operand unaries binaries rest => exact Symbol.noConfusion
          | done => exact ends.noAssign

/-! ### Expressions with assignments -/

theorem pops_apply (targets : List Identifier) : ∀ (parser : Parser), parser.Opened →
    ((targets.map Identifier.text).forM genPopVariable).run parser =
      ⟨.ok (), parser.perform (targets.flatMap fun target =>
        popVariable parser.environment target.text), []⟩ := by
  induction targets with
  | nil =>
      intro parser opened
      rw [List.flatMap_nil, perform_nil opened]
      rfl
  | cons target rest inductionHypothesis =>
      intro parser opened
      show (genPopVariable target.text >>= fun _ =>
        (rest.map Identifier.text).forM genPopVariable).run parser = _
      rw [Process.bind_of_silent (genPopVariable_apply _),
        inductionHypothesis _ (perform_opened _ _), perform_environment _ opened, perform_perform,
        List.flatMap_cons]

theorem dups_apply (targets : List Identifier) : ∀ (parser : Parser), parser.Opened →
    ((targets.map Identifier.text).forM fun _ => modifyMgenc BytecodeGenerator.emitDUP).run
        parser =
      ⟨.ok (), parser.perform (targets.map fun _ => .emit .dup), []⟩ := by
  induction targets with
  | nil =>
      intro parser opened
      rw [List.map_nil, List.map_nil, perform_nil opened]
      rfl
  | cons target rest inductionHypothesis =>
      intro parser opened
      show (modifyMgenc BytecodeGenerator.emitDUP >>= fun _ =>
        (rest.map Identifier.text).forM fun _ => modifyMgenc BytecodeGenerator.emitDUP).run
          parser = _
      rw [modifyMgenc_bind,
        show parser.updateMgenc BytecodeGenerator.emitDUP = parser.perform [.emit .dup] from rfl,
        inductionHypothesis _ (perform_opened _ _), perform_perform]
      rfl

theorem recognizes_expression (targets : List Identifier) {head : Primary}
    (unaries : List Identifier) {binaries : Binaries} {keywords : Keywords}
    (recognizes : RecognizesPrimary head) (first : RecognizesBinaries binaries)
    (second : RecognizesKeywords keywords) :
    RecognizesExpression (.mk targets head unaries binaries keywords) := by
  intro parser calls tokens opened enough ends
  obtain ⟨calls, rfl⟩ : ∃ more, calls = more + 1 := ⟨calls - 1, by omega⟩
  have written : (Expression.mk targets head unaries binaries keywords).tokens =
      targetTokens targets ++ valueTokens head unaries binaries keywords := by
    simp [Expression.tokens, valueTokens]
  have behind := valueTokens_second head unaries binaries keywords ends
  rw [written, List.length_append] at enough
  rw [written, List.append_assoc, expression, peek_bind]
  cases targets with
  | nil =>
      rw [show targetTokens [] = [] from rfl, List.nil_append, if_neg behind,
        evaluation_apply unaries recognizes first second opened (by omega) ends]
      simp [Expression.generate, messagesGenerator, extend_andThen, opened, perform_nil,
        assignActions]
  | cons target rest =>
      obtain ⟨calls, rfl⟩ : ∃ more, calls = more + 1 := ⟨calls - 1, by omega⟩
      have size : (targetTokens (target :: rest)).length = 2 * rest.length + 2 := by
        simp [targetTokens]
        omega
      rw [if_pos (show headSym (targetTokens (target :: rest) ++ _).tail = .assign from rfl),
        assignation, Process.bind_of_silent (assignments_apply target rest behind _ _ (by omega)),
        Process.bind_of_silent (evaluation_apply unaries recognizes first second
          (perform_opened _ _) (by omega) ends),
        Process.bind_of_silent (dups_apply (target :: rest) _
          ((reading_opened _ _).mpr (extend_opened _ _))),
        pops_apply (target :: rest) _ (perform_opened _ _)]
      simp [Expression.generate, messagesGenerator, extend_andThen, opened, assignActions]

/-! ### Bodies -/

/-- The symbol that ends a body. -/
def closingSym (block : Bool) : Symbol := if block then .endBlock else .endTerm

def finish (parser : Parser) (finished : Bool) : Parser :=
  parser.updateMgenc fun mgenc => { mgenc with finished := finished }

/-- The pop a period emits. -/
def popAfter (seenPeriod : Bool) : List Action := if seenPeriod then [.emit .pop] else []

/-- A body behind a statement is entered with the pop of that statement emitted;
an empty rest of a block takes it back. -/
def RecognizesBody (tree : Body) : Prop :=
  ∀ (block seenPeriod : Bool) (parser : Parser) (calls : Nat) (tokens : List Token),
    parser.Opened → parser.mgenc.finished = false → parser.mgenc.blockMethod = block →
    8 * tree.tokens.length + 5 ≤ calls → headSym tokens = closingSym block →
    (blockBody calls seenPeriod).run
        ((parser.perform (popAfter seenPeriod)).reading (tree.tokens ++ tokens)) =
      ⟨.ok (), ((parser.extend
        ((Generator.actions (popAfter (seenPeriod && !(block && tree.isEmpty)))).andThen
          (tree.generate parser.environment block))).finish (!tree.endsOpen)).reading tokens, []⟩

theorem endsExpression_of_closing {block : Bool} {tokens : List Token}
    (closes : headSym tokens = closingSym block) : EndsExpression tokens := by
  cases block <;> exact ⟨by rw [closes]; rfl, by rw [closes]; exact Symbol.noConfusion⟩

/-- Taking a pop back undoes its emission. -/
theorem updateMgenc_removeLastBytecode {parser : Parser} (opened : parser.Opened) :
    (parser.perform [.emit .pop]).updateMgenc (·.removeLastBytecode) = parser := by
  have undone (mgenc : MethodGenerationContext) :
      (mgenc.perform [.emit .pop]).removeLastBytecode = mgenc := by
    simp [MethodGenerationContext.perform, Action.apply, Instruction.emit,
      BytecodeGenerator.emitPOP, BytecodeGenerator.emit1, MethodGenerationContext.addBytecode,
      MethodGenerationContext.removeLastBytecode]
  cases parser with
  | mk tokens objects contexts classContext =>
      cases contexts with
      | nil => exact absurd rfl opened
      | cons mgenc outer =>
          have undone := undone mgenc
          simp only [perform, updateMgenc, Parser.mgenc, List.headD_cons, List.tail_cons, undone]

theorem finish_false {parser : Parser} (opened : parser.Opened)
    (running : parser.mgenc.finished = false) : parser.finish false = parser := by
  cases parser with
  | mk tokens objects contexts classContext =>
      cases contexts with
      | nil => exact absurd rfl opened
      | cons mgenc outer =>
          have running : mgenc.finished = false := running
          simp only [finish, updateMgenc, Parser.mgenc, List.headD_cons, List.tail_cons]
          rw [← running]

theorem recognizes_empty_body : RecognizesBody .empty := by
  intro block seenPeriod parser calls tokens opened running blockMethod enough closes
  obtain ⟨calls, rfl⟩ : ∃ more, calls = more + 1 := ⟨calls - 1, by omega⟩
  have noExit : headSym tokens ≠ .exit := by
    rw [closes]
    cases block <;> exact Symbol.noConfusion
  rw [Body.tokens, List.nil_append, blockBody, Process.bind_of_silent (accept_other noExit)]
  simp only [Bool.false_eq_true, if_false]
  rw [sym_bind]
  cases block with
  | true =>
      have closes : headSym tokens = .endBlock := closes
      rw [if_pos closes]
      cases seenPeriod with
      | true =>
          rw [if_pos rfl, modifyMgenc_bind, reading_updateMgenc, popAfter, if_pos rfl,
            updateMgenc_removeLastBytecode opened]
          simp [extend_andThen, Body.generate, Body.isEmpty, Body.endsOpen, popAfter,
            perform_nil opened]
          rfl
      | false =>
          simp [extend_andThen, Body.generate, Body.isEmpty, Body.endsOpen, popAfter,
            perform_nil opened]
          rfl
  | false =>
      have closes : headSym tokens = .endTerm := closes
      rw [if_neg (by rw [closes]; exact Symbol.noConfusion), sym_bind, if_pos closes]
      simp [extend_andThen, Body.generate, Body.endsOpen]
      cases seenPeriod <;> rfl

theorem expression_of_starts {tokens : List Token}
    (starts : expressionStarts.contains (headSym tokens) = true) :
    headSym tokens ≠ .exit ∧ headSym tokens ≠ .endBlock ∧ headSym tokens ≠ .endTerm :=
  ⟨ne_of_expressionStarts starts rfl, ne_of_expressionStarts starts rfl,
    ne_of_expressionStarts starts rfl⟩

theorem mgenc_finished_extend (parser : Parser) (generator : Generator) :
    (parser.extend generator).mgenc.finished = parser.mgenc.finished :=
  MethodGenerationContext.finished_perform _ _

theorem mgenc_finished_perform (parser : Parser) (actions : List Action) :
    (parser.perform actions).mgenc.finished = parser.mgenc.finished :=
  MethodGenerationContext.finished_perform _ _

theorem mgenc_blockMethod_extend (parser : Parser) (generator : Generator) :
    (parser.extend generator).mgenc.blockMethod = parser.mgenc.blockMethod :=
  MethodGenerationContext.blockMethod_perform _ _

theorem mgenc_blockMethod_perform (parser : Parser) (actions : List Action) :
    (parser.perform actions).mgenc.blockMethod = parser.mgenc.blockMethod :=
  MethodGenerationContext.blockMethod_perform _ _

theorem recognizes_result {value : Expression} (period : Bool)
    (recognizes : RecognizesExpression value) : RecognizesBody (.result value period) := by
  intro block seenPeriod parser calls tokens opened running blockMethod enough closes
  obtain ⟨calls, rfl⟩ : ∃ more, calls = more + 1 := ⟨calls - 1, by omega⟩
  obtain ⟨calls, rfl⟩ : ∃ more, calls = more + 1 := ⟨calls - 1, by omega⟩
  have size : (Body.result value period).tokens.length =
      value.tokens.length + (if period then 1 else 0) + 1 := by
    cases period <;> simp [Body.tokens]
  have written : (Body.result value period).tokens ++ tokens =
      Token.exit :: (value.tokens ++ ((if period then [Token.period] else []) ++ tokens)) := by
    simp [Body.tokens]
  have ends : EndsExpression ((if period then [Token.period] else []) ++ tokens) := by
    cases period with
    | true => exact ⟨rfl, Symbol.noConfusion⟩
    | false => exact endsExpression_of_closing closes
  have noPeriod : headSym tokens ≠ .period := by
    rw [closes]
    cases block <;> exact Symbol.noConfusion
  rw [written, blockBody, Process.bind_of_silent (accept_same .exit Token.exit _ rfl), if_pos rfl,
    result, Process.bind_of_silent (recognizes _ _ _ (perform_opened _ _) (by omega) ends),
    modifyMgenc_bind, modifyMgenc_bind, reading_updateMgenc, reading_updateMgenc]
  have returns (parser : Parser) (same : parser.mgenc.blockMethod = block) :
      parser.updateMgenc (fun mgenc =>
        if mgenc.blockMethod then BytecodeGenerator.emitRETURNNONLOCAL mgenc
        else BytecodeGenerator.emitRETURNLOCAL mgenc) =
      parser.perform [.emit (if block then .returnNonLocal else .returnLocal)] := by
    rw [updateMgenc, same]
    cases block <;> rfl
  rw [returns _ (by rw [mgenc_blockMethod_extend, mgenc_blockMethod_perform, blockMethod])]
  have final : (parser.extend ((Generator.actions (popAfter (seenPeriod &&
      !(block && (Body.result value period).isEmpty)))).andThen
        ((Body.result value period).generate parser.environment block))) =
      ((parser.perform (popAfter seenPeriod)).extend
        (value.generate parser.environment)).perform
          [.emit (if block then .returnNonLocal else .returnLocal)] := by
    simp [extend_andThen, Body.generate, Body.isEmpty]
  rw [final, perform_environment _ opened]
  cases period with
  | true => rfl
  | false =>
      rw [if_neg Bool.false_ne_true, List.nil_append,
        Process.bind_of_silent (accept_other noPeriod)]
      rfl

theorem recognizes_last {value : Expression} (recognizes : RecognizesExpression value) :
    RecognizesBody (.last value) := by
  intro block seenPeriod parser calls tokens opened running blockMethod enough closes
  obtain ⟨calls, rfl⟩ : ∃ more, calls = more + 1 := ⟨calls - 1, by omega⟩
  obtain ⟨noExit, noEndBlock, noEndTerm⟩ :=
    expression_of_starts (Expression.head_starts value tokens)
  have noPeriod : headSym tokens ≠ .period := by
    rw [closes]
    cases block <;> exact Symbol.noConfusion
  rw [Body.tokens] at enough ⊢
  rw [blockBody, Process.bind_of_silent (accept_other noExit)]
  simp only [Bool.false_eq_true, if_false]
  rw [sym_bind, if_neg noEndBlock, sym_bind, if_neg noEndTerm,
    Process.bind_of_silent (recognizes _ _ _ (perform_opened _ _) (by omega)
      (endsExpression_of_closing closes)),
    Process.bind_of_silent (accept_other noPeriod)]
  simp only [Bool.false_eq_true, if_false]
  have running : ((parser.perform (popAfter seenPeriod)).extend
      (value.generate parser.environment)).mgenc.finished = false := by
    rw [mgenc_finished_extend, mgenc_finished_perform, running]
  simp [extend_andThen, Body.generate, Body.endsOpen, Body.isEmpty, opened,
    finish_false (extend_opened _ _) running]

theorem recognizes_statement {value : Expression} {rest : Body}
    (recognizes : RecognizesExpression value) (later : RecognizesBody rest) :
    RecognizesBody (.statement value rest) := by
  intro block seenPeriod parser calls tokens opened running blockMethod enough closes
  obtain ⟨calls, rfl⟩ : ∃ more, calls = more + 1 := ⟨calls - 1, by omega⟩
  have size : (Body.statement value rest).tokens.length =
      value.tokens.length + rest.tokens.length + 1 := by
    simp [Body.tokens]
    omega
  have written : (Body.statement value rest).tokens ++ tokens =
      value.tokens ++ (Token.period :: (rest.tokens ++ tokens)) := by
    simp [Body.tokens]
  obtain ⟨noExit, noEndBlock, noEndTerm⟩ :=
    expression_of_starts (Expression.head_starts value (Token.period :: (rest.tokens ++ tokens)))
  rw [written, blockBody, Process.bind_of_silent (accept_other noExit)]
  simp only [Bool.false_eq_true, if_false]
  rw [sym_bind, if_neg noEndBlock, sym_bind, if_neg noEndTerm,
    Process.bind_of_silent (recognizes _ _ _ (perform_opened _ _) (by omega)
      ⟨rfl, Symbol.noConfusion⟩),
    Process.bind_of_silent (accept_same .period Token.period _ rfl), if_pos rfl,
    modifyMgenc_bind, reading_updateMgenc]
  have lateRun := later block true ((parser.perform (popAfter seenPeriod)).extend
    (value.generate parser.environment)) calls tokens (extend_opened _ _)
    (by rw [mgenc_finished_extend, mgenc_finished_perform, running])
    (by rw [mgenc_blockMethod_extend, mgenc_blockMethod_perform, blockMethod]) (by omega) closes
  rw [perform_environment _ opened]
  refine lateRun.trans ?_
  cases rest with
  | empty => cases block <;> simp [extend_andThen, Body.generate, Body.isEmpty, Body.endsOpen,
      popAfter]
  | result | last | statement =>
      simp [extend_andThen, Body.generate, Body.isEmpty, Body.endsOpen, popAfter, opened]

/-! ### Blocks -/

theorem foldl_addLocalIfAbsent (names : List Identifier) (mgenc : MethodGenerationContext) :
    names.foldl (fun mgenc name => mgenc.addLocalIfAbsent name.text) mgenc =
      { mgenc with
        locals := names.foldl
          (fun names name => if name.text ∈ names then names else names ++ [name.text])
          mgenc.locals } := by
  induction names generalizing mgenc with
  | nil => rfl
  | cons name rest inductionHypothesis =>
      rw [List.foldl_cons, List.foldl_cons, inductionHypothesis,
        MethodGenerationContext.addLocalIfAbsent]
      split <;> rfl

theorem foldl_addArgumentIfAbsent (parameters : List Parameter) (mgenc : MethodGenerationContext)
    (noLocals : mgenc.locals = []) :
    parameters.foldl (fun mgenc parameter => mgenc.addArgumentIfAbsent parameter.token.text)
        mgenc =
      { mgenc with arguments := mgenc.arguments ++ parameters.map (·.token.text) } := by
  induction parameters generalizing mgenc with
  | nil => simp
  | cons parameter rest inductionHypothesis =>
      have added : mgenc.addArgumentIfAbsent parameter.token.text =
          mgenc.addArgument parameter.token.text := by
        rw [MethodGenerationContext.addArgumentIfAbsent, noLocals, if_neg List.not_mem_nil]
      rw [List.foldl_cons, added, inductionHypothesis (mgenc.addArgument _) noLocals]
      simp [MethodGenerationContext.addArgument]

/-- The compilation with the locals of a body declared. -/
def declare (parser : Parser) (locals : Option (List Identifier)) : Parser :=
  parser.updateMgenc fun mgenc => { mgenc with locals := declaredLocals locals }

theorem declare_opened (parser : Parser) (locals : Option (List Identifier)) :
    (parser.declare locals).Opened := List.cons_ne_nil _ _

theorem blockContents_apply (locals : Option (List Identifier)) {body : Body}
    (recognizes : RecognizesBody body) (block : Bool) {parser : Parser} {calls : Nat}
    {tokens : List Token} (opened : parser.Opened) (running : parser.mgenc.finished = false)
    (blockMethod : parser.mgenc.blockMethod = block) (noLocals : parser.mgenc.locals = [])
    (enough : 8 * ((barredTokens locals).length + body.tokens.length) + 6 ≤ calls)
    (closes : headSym tokens = closingSym block) :
    (blockContents calls).run
        (parser.reading (barredTokens locals ++ (body.tokens ++ tokens))) =
      ⟨.ok (), (((parser.declare locals).extend
        (body.generate (parser.declare locals).environment block)).finish
          (!body.endsOpen)).reading tokens, []⟩ := by
  obtain ⟨calls, rfl⟩ : ∃ more, calls = more + 1 := ⟨calls - 1, by omega⟩
  have bodyRun := recognizes block false (parser.declare locals) calls tokens
    (declare_opened _ _) running blockMethod (by omega) closes
  simp only [popAfter, Bool.false_and, Bool.false_eq_true, if_false] at bodyRun
  rw [extend_andThen, extend_actions, perform_nil (declare_opened _ _)] at bodyRun
  rw [blockContents]
  cases locals with
  | none =>
      have noBar : headSym (body.tokens ++ tokens) ≠ .or := by
        refine Body.head_ne body ?_ Symbol.noConfusion rfl
        rw [closes]
        cases block <;> exact Symbol.noConfusion
      have same : parser.declare none = parser := by
        cases parser with
        | mk tokens objects contexts classContext =>
            cases contexts with
            | nil => exact absurd rfl opened
            | cons mgenc outer =>
                have noLocals : mgenc.locals = [] := noLocals
                simp only [declare, updateMgenc, Parser.mgenc, List.headD_cons, List.tail_cons]
                rw [show declaredLocals none = mgenc.locals from noLocals.symm]
      rw [same] at bodyRun ⊢
      rw [barredTokens, List.nil_append, Process.bind_of_silent (accept_other noBar)]
      simp only [Bool.false_eq_true, if_false]
      exact bodyRun
  | some names =>
      have size : (barredTokens (some names)).length = names.length + 2 := by
        simp [barredTokens]
      have declared : (parser.updateMgenc fun mgenc => names.foldl
          (fun mgenc name => mgenc.addLocalIfAbsent name.text) mgenc) =
            parser.declare (some names) := by
        rw [updateMgenc, foldl_addLocalIfAbsent, noLocals]
        rfl
      have written : barredTokens (some names) ++ (body.tokens ++ tokens) =
          Token.or :: (names.map Identifier.token ++ (Token.or :: (body.tokens ++ tokens))) := by
        simp [barredTokens]
      rw [written, Process.bind_of_silent (accept_same .or Token.or _ rfl), if_pos rfl,
        Process.bind_of_silent (locals_apply names Symbol.noConfusion _ _ opened (by omega)),
        Process.bind_of_silent (expect_same .or Token.or _ rfl), declared]
      exact bodyRun

/-- The compilation inside a new method or block context. -/
def enterContext (parser : Parser) (mgenc : MethodGenerationContext) : Parser :=
  { parser with contexts := mgenc :: parser.contexts }

theorem enterContext_opened (parser : Parser) (mgenc : MethodGenerationContext) :
    (parser.enterContext mgenc).Opened := List.cons_ne_nil _ _

/-- What a block adds to its own context. -/
def blockGenerator (environment : Environment) (parameters : List Parameter)
    (locals : Option (List Identifier)) (body : Body) : Generator :=
  (body.generate (environment.enter (blockScope parameters locals)) true).andThen
    (.actions (body.closing true))

/-- The context of a block while its parameters are being read. -/
def blockContext (parameters : List Parameter) : MethodGenerationContext :=
  .opened true "" (blockScope parameters none)

theorem nestedBlock_apply (parameters : List Parameter) (locals : Option (List Identifier))
    {body : Body} (recognizes : RecognizesBody body) {parser : Parser} {calls : Nat}
    {tokens : List Token}
    (enough : 8 * (Primary.block parameters locals body).tokens.length ≤ calls + 1) :
    (nestedBlock calls).run ((parser.enterContext { blockMethod := true }).reading
        ((Primary.block parameters locals body).tokens ++ tokens)) =
      ⟨.ok (), ((((parser.enterContext (.opened true (blockSignature (parameters.length + 1))
        (blockScope parameters locals))).extend
          (blockGenerator parser.environment parameters locals body)).finish true).reading
            tokens), []⟩ := by
  obtain ⟨calls, rfl⟩ : ∃ more, calls = more + 1 := by
    have positive := Primary.tokens_ne_nil (.block parameters locals body)
    exact ⟨calls - 1, by omega⟩
  have size : (Primary.block parameters locals body).tokens.length =
      (parameterTokens parameters).length + (barredTokens locals).length +
        body.tokens.length + 2 := by
    simp [Primary.tokens]
    omega
  have written : (Primary.block parameters locals body).tokens ++ tokens =
      Token.newBlock :: (parameterTokens parameters ++ (barredTokens locals ++
        (body.tokens ++ (Token.endBlock :: tokens)))) := by
    simp [Primary.tokens]
  -- the state once the parameters have been read
  have pattern : ∀ rest : ParserM Unit,
      (do if (← sym) = .colon then blockPattern calls
          rest : ParserM Unit).run
        ((parser.enterContext
          (blockContext [])).reading
            (parameterTokens parameters ++ (barredTokens locals ++
              (body.tokens ++ (Token.endBlock :: tokens))))) =
      rest.run ((parser.enterContext
          (blockContext parameters)).reading
            (barredTokens locals ++ (body.tokens ++ (Token.endBlock :: tokens)))) := by
    intro rest
    rw [sym_bind]
    cases parameters with
    | nil =>
        have noColon : headSym (barredTokens locals ++ (body.tokens ++
            (Token.endBlock :: tokens))) ≠ .colon := by
          cases locals with
          | none => exact Body.head_ne body Symbol.noConfusion Symbol.noConfusion rfl
          | some names => exact Symbol.noConfusion
        rw [parameterTokens, List.nil_append, if_neg noColon]
    | cons first more =>
        have patternTokens : parameterTokens (first :: more) ++ (barredTokens locals ++
            (body.tokens ++ (Token.endBlock :: tokens))) =
            colonTokens (first :: more) ++ (Token.or :: (barredTokens locals ++
              (body.tokens ++ (Token.endBlock :: tokens)))) := by
          simp [parameterTokens, colonTokens]
        have patternSize : (parameterTokens (first :: more)).length = 2 * more.length + 3 := by
          simp [parameterTokens]
          omega
        have arguments : (parser.enterContext (blockContext [])).updateMgenc (fun mgenc => (first :: more).foldl
                (fun mgenc parameter => mgenc.addArgumentIfAbsent parameter.token.text) mgenc) =
            parser.enterContext (blockContext (first :: more)) := by
          rw [updateMgenc, foldl_addArgumentIfAbsent _ _ rfl]
          rfl
        rw [patternTokens, if_pos (show headSym (colonTokens (first :: more) ++ _) = .colon from rfl)]
        have run : (blockPattern calls).run ((parser.enterContext
            (blockContext [])).reading
              (colonTokens (first :: more) ++ (Token.or :: (barredTokens locals ++
                (body.tokens ++ (Token.endBlock :: tokens)))))) =
            ⟨.ok (), (parser.enterContext (blockContext (first :: more))).reading
                (barredTokens locals ++ (body.tokens ++ (Token.endBlock :: tokens))), []⟩ := by
          rw [blockPattern, Process.bind_of_silent (blockArguments_apply more first
            Symbol.noConfusion _ _ (by omega)), arguments,
            Process.bind_of_silent (expect_same .or Token.or _ rfl)]
          rfl
        exact Process.bind_of_silent run
  have started : (parser.enterContext { blockMethod := true }).updateMgenc
      (·.addArgumentIfAbsent "$block self") =
        parser.enterContext (blockContext []) := rfl
  rw [written, nestedBlock, modifyMgenc_bind, reading_updateMgenc, started,
    Process.bind_of_silent (expect_same .newBlock Token.newBlock _ rfl)]
  refine (pattern _).trans ?_
  have arity : (parser.enterContext (blockContext parameters)).mgenc.arguments.length =
      parameters.length + 1 := by
    simp [enterContext, blockContext, MethodGenerationContext.opened, blockScope, Parser.mgenc]
  have signed (signature : String) : (parser.enterContext (blockContext parameters)).updateMgenc
      (fun mgenc => { mgenc with signature := signature }) =
        parser.enterContext (.opened true signature (blockScope parameters none)) := rfl
  have declared (signature : String) :
      (parser.enterContext (.opened true signature (blockScope parameters none))).declare locals =
        parser.enterContext (.opened true signature (blockScope parameters locals)) := rfl
  rw [read_bind, symbolFor_bind, setSignature, modifyMgenc_bind, reading_updateMgenc,
    reading_mgenc, signed, arity]
  have contents := blockContents_apply locals recognizes true
    (enterContext_opened parser (.opened true (blockSignature (parameters.length + 1))
      (blockScope parameters none))) rfl rfl rfl
    (show _ ≤ calls by omega) (rfl : headSym (Token.endBlock :: tokens) = closingSym true)
  rw [declared] at contents
  rw [Process.bind_of_silent contents, read_bind]
  cases ends : body.endsOpen with
  | true =>
      rw [if_pos (by rfl), modifyMgenc_bind, modifyMgenc_bind, reading_updateMgenc,
        reading_updateMgenc]
      refine (Process.bind_of_silent (expect_same .endBlock Token.endBlock tokens rfl)).trans ?_
      rw [blockGenerator, extend_andThen, Body.closing, if_pos ends, if_pos rfl, extend_actions]
      rfl
  | false =>
      rw [if_neg (by simp; rfl)]
      refine (Process.bind_of_silent (expect_same .endBlock Token.endBlock tokens rfl)).trans ?_
      rw [blockGenerator, extend_andThen, Body.closing, if_neg (by rw [ends]; decide),
        extend_actions, perform_nil (extend_opened _ _)]
      rfl

/-! ### Every tree is recognized -/

theorem recognizes_block (parameters : List Parameter) (locals : Option (List Identifier))
    {body : Body} (recognizes : RecognizesBody body) :
    RecognizesPrimary (.block parameters locals body) := by
  intro parser calls tokens opened enough
  have positive := Primary.tokens_ne_nil (.block parameters locals body)
  obtain ⟨calls, rfl⟩ : ∃ more, calls = more + 1 := ⟨calls - 1, by omega⟩
  have newBlock : headSym ((Primary.block parameters locals body).tokens ++ tokens) =
      .newBlock := rfl
  rw [primary, sym_bind, newBlock]
  refine (Process.bind_of_silent (Process.run_modify _ _)).trans ?_
  refine (Process.bind_of_silent (nestedBlock_apply parameters locals recognizes
    (show _ ≤ calls + 1 by omega))).trans ?_
  let added := blockGenerator parser.environment parameters locals body parser.objects.length
  let mgenc := (MethodGenerationContext.opened true (blockSignature (parameters.length + 1))
    (blockScope parameters locals)).perform added.actions
  show Outcome.mk (.ok false) (Parser.reading { parser with
    objects := (parser.objects ++ added.objects) ++ [.method mgenc.compiled]
    contexts := parser.mgenc.perform [.addLiteral (.object (parser.objects ++ added.objects).length),
      .emit (.pushBlock (.object (parser.objects ++ added.objects).length))] ::
        parser.contexts.tail } tokens) [] = _
  rw [List.append_assoc, List.length_append]
  rfl

theorem recognizes_name (identifier : Identifier) : RecognizesPrimary (.name identifier) := by
  intro parser calls tokens opened enough
  have positive := Primary.tokens_ne_nil (.name identifier)
  obtain ⟨calls, rfl⟩ : ∃ more, calls = more + 1 := ⟨calls - 1, by omega⟩
  have head : headSym (identifier.token :: tokens) = .identifier := rfl
  rw [show (Primary.name identifier).tokens ++ tokens = identifier.token :: tokens from rfl,
    primary, sym_bind, head, variableName]
  refine (Process.bind_of_silent (identifier_apply tokens (Or.inl identifier.sym_token))).trans ?_
  have text : identifier.token.text = identifier.text := rfl
  rw [text, Primary.generate, Primary.isSuper, extend_actions]
  by_cases super : identifier.text = "super"
  · rw [if_pos super, Process.bind_of_silent (genPushVariable_apply _), if_pos super, super]
    rfl
  · rw [if_neg super, Process.bind_of_silent (genPushVariable_apply _), if_neg super,
      beq_eq_false_iff_ne.mpr super]
    rfl

theorem recognizes_term {expression : Expression} (recognizes : RecognizesExpression expression) :
    RecognizesPrimary (.term expression) := by
  intro parser calls tokens opened enough
  have size : (Primary.term expression).tokens.length = expression.tokens.length + 2 := by
    simp [Primary.tokens]
  obtain ⟨calls, rfl⟩ : ∃ more, calls = more + 1 := ⟨calls - 1, by omega⟩
  obtain ⟨calls, rfl⟩ : ∃ more, calls = more + 1 := ⟨calls - 1, by omega⟩
  have written : (Primary.term expression).tokens ++ tokens =
      Token.newTerm :: (expression.tokens ++ (Token.endTerm :: tokens)) := by
    simp [Primary.tokens]
  have head : headSym (Token.newTerm :: (expression.tokens ++ (Token.endTerm :: tokens))) =
      .newTerm := rfl
  have term : (nestedTerm (calls + 1)).run (parser.reading
      (Token.newTerm :: (expression.tokens ++ (Token.endTerm :: tokens)))) =
      ⟨.ok (), (parser.extend (expression.generate parser.environment)).reading tokens, []⟩ := by
    rw [nestedTerm, Process.bind_of_silent (expect_same .newTerm Token.newTerm _ rfl),
      Process.bind_of_silent (recognizes _ _ _ opened (by omega) ⟨rfl, Symbol.noConfusion⟩),
      Process.bind_of_silent (expect_same .endTerm Token.endTerm _ rfl)]
    rfl
  rw [written, primary, sym_bind, head]
  exact Process.bind_of_silent term

theorem recognizes_literal (source : LiteralSource) : RecognizesPrimary (.literal source) := by
  intro parser calls tokens opened enough
  have positive := Primary.tokens_ne_nil (.literal source)
  obtain ⟨calls, rfl⟩ : ∃ more, calls = more + 1 := ⟨calls - 1, by omega⟩
  rw [primary, Primary.tokens, Primary.generate, sym_bind]
  have literalRun : Parser.literal.run (parser.reading (source.tokens ++ tokens)) = _ :=
    literal_apply source tokens
  cases source <;> exact Process.bind_of_silent literalRun

mutual

theorem primary_recognized : (tree : Primary) → RecognizesPrimary tree
  | .name identifier => recognizes_name identifier
  | .term expression => recognizes_term (expression_recognized expression)
  | .block parameters locals body => recognizes_block parameters locals (body_recognized body)
  | .literal source => recognizes_literal source

theorem expression_recognized : (tree : Expression) → RecognizesExpression tree
  | .mk targets head unaries binaries keywords =>
      recognizes_expression targets unaries (primary_recognized head)
        (binaries_recognized binaries) (keywords_recognized keywords)

theorem binaries_recognized : (tree : Binaries) → RecognizesBinaries tree
  | .done => recognizes_done_binaries
  | .message operator operand unaries rest =>
      recognizes_binary_message operator unaries (primary_recognized operand)
        (binaries_recognized rest)

theorem keywords_recognized : (tree : Keywords) → RecognizesKeywords tree
  | .done => fun _ _ _ _ _ _ some => absurd some (by decide)
  | .message keyword operand unaries binaries rest =>
      recognizes_keyword_message keyword unaries (primary_recognized operand)
        (binaries_recognized binaries) (keywords_recognized rest)

theorem body_recognized : (tree : Body) → RecognizesBody tree
  | .empty => recognizes_empty_body
  | .result value period => recognizes_result period (expression_recognized value)
  | .last value => recognizes_last (expression_recognized value)
  | .statement value rest =>
      recognizes_statement (expression_recognized value) (body_recognized rest)

end

end Parser

end Somr.Compiler
