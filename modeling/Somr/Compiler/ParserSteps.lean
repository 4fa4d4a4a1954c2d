import Somr.Compiler.Generation
import Somr.Compiler.Parser

/-!
Owns what the procedures of the parser without nesting do on tokens they accept,
and how actions extend a compilation.
-/

namespace Somr.Compiler

open Somr.Foundation

/-! ### Extending a compilation -/

namespace MethodGenerationContext

@[simp] theorem perform_nil (mgenc : MethodGenerationContext) : mgenc.perform [] = mgenc := rfl

theorem perform_append (mgenc : MethodGenerationContext) (early late : List Action) :
    mgenc.perform (early ++ late) = (mgenc.perform early).perform late := by
  rw [perform, List.foldl_append]
  rfl

/-- Actions change the literals and the bytecode of a context and nothing else. -/
theorem apply_frame (mgenc : MethodGenerationContext) (action : Action) :
    Action.apply mgenc action =
      { mgenc with
        literals := (Action.apply mgenc action).literals
        bytecode := (Action.apply mgenc action).bytecode } := by
  cases action with
  | addLiteralIfAbsent literal =>
      simp only [Action.apply, addLiteralIfAbsent, addLiteral]
      split <;> rfl
  | addLiteral literal => rfl
  | emit instruction => cases instruction <;> rfl

theorem perform_frame (mgenc : MethodGenerationContext) (actions : List Action) :
    mgenc.perform actions =
      { mgenc with
        literals := (mgenc.perform actions).literals
        bytecode := (mgenc.perform actions).bytecode } := by
  induction actions generalizing mgenc with
  | nil => rfl
  | cons action rest inductionHypothesis =>
      have later := inductionHypothesis (Action.apply mgenc action)
      rw [apply_frame mgenc action] at later
      rw [show mgenc.perform (action :: rest) = (Action.apply mgenc action).perform rest from rfl,
        apply_frame mgenc action]
      exact later

@[simp] theorem toScope_perform (mgenc : MethodGenerationContext) (actions : List Action) :
    (mgenc.perform actions).toScope = mgenc.toScope := by
  rw [perform_frame]

@[simp] theorem finished_perform (mgenc : MethodGenerationContext) (actions : List Action) :
    (mgenc.perform actions).finished = mgenc.finished := by
  rw [perform_frame]

@[simp] theorem blockMethod_perform (mgenc : MethodGenerationContext) (actions : List Action) :
    (mgenc.perform actions).blockMethod = mgenc.blockMethod := by
  rw [perform_frame]

@[simp] theorem primitive_perform (mgenc : MethodGenerationContext) (actions : List Action) :
    (mgenc.perform actions).primitive = mgenc.primitive := by
  rw [perform_frame]

end MethodGenerationContext

namespace Parser

/-- The symbol the parser sees when `tokens` are left. -/
def headSym (tokens : List Token) : Symbol := (tokens.headD Token.endOfInput).sym

def reading (parser : Parser) (tokens : List Token) : Parser := { parser with tokens := tokens }

def environment (parser : Parser) : Environment := ⟨parser.scopes, parser.classContext⟩

def perform (parser : Parser) (actions : List Action) : Parser :=
  parser.updateMgenc (·.perform actions)

/-- The compilation after a piece of syntax has been generated. -/
def extend (parser : Parser) (generator : Generator) : Parser :=
  let added := generator parser.objects.length
  { parser with
    objects := parser.objects ++ added.objects
    contexts := parser.mgenc.perform added.actions :: parser.contexts.tail }

/-- A method or block is being compiled. -/
def Opened (parser : Parser) : Prop := parser.contexts ≠ []

section

variable (parser : Parser) (generator : Generator) (tokens : List Token) (actions : List Action)

@[simp] theorem reading_reading (again : List Token) :
    (parser.reading tokens).reading again = parser.reading again := rfl
@[simp] theorem reading_tokens : (parser.reading tokens).tokens = tokens := rfl
@[simp] theorem reading_environment : (parser.reading tokens).environment = parser.environment := rfl
@[simp] theorem reading_mgenc : (parser.reading tokens).mgenc = parser.mgenc := rfl
@[simp] theorem reading_objects : (parser.reading tokens).objects = parser.objects := rfl
@[simp] theorem reading_perform :
    (parser.reading tokens).perform actions = (parser.perform actions).reading tokens :=
  rfl
@[simp] theorem reading_updateMgenc
    (change : MethodGenerationContext → MethodGenerationContext) :
    (parser.reading tokens).updateMgenc change = (parser.updateMgenc change).reading tokens := rfl
@[simp] theorem reading_opened : (parser.reading tokens).Opened ↔ parser.Opened := Iff.rfl
@[simp] theorem perform_opened : (parser.perform actions).Opened := List.cons_ne_nil _ _
@[simp] theorem extend_opened : (parser.extend generator).Opened := List.cons_ne_nil _ _

@[simp] theorem perform_perform (early late : List Action) :
    (parser.perform early).perform late = parser.perform (early ++ late) := by
  simp [perform, updateMgenc, mgenc, MethodGenerationContext.perform_append]

@[simp] theorem extend_actions : parser.extend (.actions actions) = parser.perform actions := by
  simp [extend, perform, updateMgenc, Generator.actions]

theorem extend_andThen (early late : Generator) :
    parser.extend (early.andThen late) = (parser.extend early).extend late := by
  simp [extend, Generator.andThen, mgenc, MethodGenerationContext.perform_append]

variable {parser}

theorem perform_nil (opened : parser.Opened) : parser.perform [] = parser := by
  cases parser with
  | mk tokens objects contexts classContext =>
      cases contexts with
      | nil => exact absurd rfl opened
      | cons mgenc outer => rfl

@[simp] theorem perform_environment (opened : parser.Opened) :
    (parser.perform actions).environment = parser.environment := by
  cases parser with
  | mk tokens objects contexts classContext =>
      cases contexts with
      | nil => exact absurd rfl opened
      | cons mgenc outer => simp [environment, perform, updateMgenc, scopes, Parser.mgenc]

@[simp] theorem extend_environment (opened : parser.Opened) :
    (parser.extend generator).environment = parser.environment := by
  cases parser with
  | mk tokens objects contexts classContext =>
      cases contexts with
      | nil => exact absurd rfl opened
      | cons mgenc outer => simp [environment, extend, scopes, Parser.mgenc]

end

/-! ### Reading tokens -/

end Parser

@[simp] theorem Identifier.sym_token (identifier : Identifier) :
    identifier.token.sym = .identifier := rfl

@[simp] theorem Keyword.sym_token (keyword : Keyword) : keyword.token.sym = .keyword := rfl

namespace Parser

section

variable (parser : Parser) {Value : Type}

theorem sym_bind (rest : Symbol → ParserM Value) (tokens : List Token) :
    (sym >>= rest).run (parser.reading tokens) = (rest (headSym tokens)).run (parser.reading tokens) := rfl

theorem text_bind (rest : String → ParserM Value) (tokens : List Token) :
    (text >>= rest).run (parser.reading tokens) =
      (rest (tokens.headD Token.endOfInput).text).run (parser.reading tokens) := rfl

theorem peek_bind (rest : Symbol → ParserM Value) (tokens : List Token) :
    (peek >>= rest).run (parser.reading tokens) =
      (rest (headSym tokens.tail)).run (parser.reading tokens) := rfl

theorem modifyMgenc_bind (change : MethodGenerationContext → MethodGenerationContext)
    (rest : Unit → ParserM Value) :
    (modifyMgenc change >>= rest).run parser = (rest ()).run (parser.updateMgenc change) := rfl

theorem symbolFor_bind (name : String) (rest : Literal → ParserM Value) :
    (symbolFor name >>= rest).run parser = (rest (.symbol name)).run parser := rfl

theorem read_bind (rest : Parser → ParserM Value) :
    ((Process.read : ParserM Parser) >>= rest).run parser = (rest parser).run parser := rfl

variable {parser}

theorem accept_same (s : Symbol) (token : Token) (tokens : List Token) (same : token.sym = s) :
    (accept s).run (parser.reading (token :: tokens)) = ⟨.ok true, parser.reading tokens, []⟩ := by
  rw [accept, sym_bind, headSym, List.headD_cons, if_pos same]
  rfl

theorem accept_other {s : Symbol} {tokens : List Token} (other : headSym tokens ≠ s) :
    (accept s).run (parser.reading tokens) = ⟨.ok false, parser.reading tokens, []⟩ := by
  rw [accept, sym_bind, if_neg other]
  rfl

theorem accept_bind (s : Symbol) (token : Token) (tokens : List Token)
    (rest : Bool → ParserM Value) :
    (accept s >>= rest).run (parser.reading (token :: tokens)) =
      if token.sym = s then (rest true).run (parser.reading tokens)
      else (rest false).run (parser.reading (token :: tokens)) := by
  split
  · next same => rw [Process.bind_of_silent (accept_same s token tokens same)]
  · next other =>
      have other : headSym (token :: tokens) ≠ s := other
      rw [Process.bind_of_silent (accept_other other)]

theorem acceptOneOf_member {ss : List Symbol} {token : Token} (tokens : List Token)
    (member : ss.contains token.sym = true) :
    (acceptOneOf ss).run (parser.reading (token :: tokens)) =
      ⟨.ok true, parser.reading tokens, []⟩ := by
  rw [acceptOneOf, sym_bind, headSym, List.headD_cons, if_pos member]
  rfl

theorem acceptOneOf_other {ss : List Symbol} {tokens : List Token}
    (other : ss.contains (headSym tokens) = false) :
    (acceptOneOf ss).run (parser.reading tokens) = ⟨.ok false, parser.reading tokens, []⟩ := by
  rw [acceptOneOf, sym_bind, if_neg (by rw [other]; exact Bool.false_ne_true)]
  rfl

theorem acceptOneOf_bind (ss : List Symbol) (token : Token) (tokens : List Token)
    (rest : Bool → ParserM Value) :
    (acceptOneOf ss >>= rest).run (parser.reading (token :: tokens)) =
      if ss.contains token.sym then (rest true).run (parser.reading tokens)
      else (rest false).run (parser.reading (token :: tokens)) := by
  split
  · next member => rw [Process.bind_of_silent (acceptOneOf_member tokens member)]
  · next other =>
      rw [Process.bind_of_silent (acceptOneOf_other (Bool.eq_false_iff.mpr other))]

theorem expect_same (s : Symbol) (token : Token) (tokens : List Token) (same : token.sym = s) :
    (expect s).run (parser.reading (token :: tokens)) = ⟨.ok true, parser.reading tokens, []⟩ := by
  rw [expect, Process.bind_of_silent (accept_same s token tokens same)]
  rfl

theorem expectOneOf_member {ss : List Symbol} {token : Token} (tokens : List Token)
    (member : ss.contains token.sym = true) :
    (expectOneOf ss).run (parser.reading (token :: tokens)) =
      ⟨.ok true, parser.reading tokens, []⟩ := by
  rw [expectOneOf, Process.bind_of_silent (acceptOneOf_member tokens member)]
  rfl

/-! ### Names and selectors -/

theorem identifier_apply {token : Token} (tokens : List Token)
    (named : token.sym = .identifier ∨ token.sym = .primitive) :
    identifier.run (parser.reading (token :: tokens)) =
      ⟨.ok token.text, parser.reading tokens, []⟩ := by
  rw [identifier, text_bind]
  rcases named with named | named
  · have other : headSym (token :: tokens) ≠ .primitive := by
      rw [headSym, List.headD_cons, named]
      decide
    rw [Process.bind_of_silent (accept_other other)]
    simp only [Bool.false_eq_true, if_false]
    rw [Process.bind_of_silent (expect_same _ token tokens named)]
    rfl
  · rw [Process.bind_of_silent (accept_same _ token tokens named)]
    rfl

theorem keyword_apply {token : Token} (tokens : List Token) (named : token.sym = .keyword) :
    keyword.run (parser.reading (token :: tokens)) = ⟨.ok token.text, parser.reading tokens, []⟩ := by
  rw [keyword, text_bind, Process.bind_of_silent (expect_same _ token tokens named)]
  rfl

theorem unarySelector_apply {token : Token} (tokens : List Token)
    (named : token.sym = .identifier ∨ token.sym = .primitive) :
    unarySelector.run (parser.reading (token :: tokens)) =
      ⟨.ok token.text, parser.reading tokens, []⟩ := by
  rw [unarySelector, Process.bind_of_silent (identifier_apply tokens named)]
  rfl

/-- Every operator symbol is accepted by one of the branches of `binarySelector`. -/
theorem binarySelector_apply {token : Token} (tokens : List Token)
    (operator : token.sym.isBinaryOperator = true ∨ singleOpSyms.contains token.sym = true) :
    binarySelector.run (parser.reading (token :: tokens)) =
      ⟨.ok token.text, parser.reading tokens, []⟩ := by
  have covered : token.sym = .or ∨ token.sym = .comma ∨ token.sym = .minus ∨
      token.sym = .equal ∨ singleOpSyms.contains token.sym = true ∨
      token.sym = .operatorSequence := by
    generalize token.sym = symbol at operator
    cases symbol <;> simp_all [Symbol.isBinaryOperator, binaryOpSyms, singleOpSyms]
  rw [binarySelector, text_bind]
  simp only [accept_bind, acceptOneOf_bind, if_true, Bool.false_eq_true, if_false]
  split_ifs
  all_goals first
    | rfl
    | tauto

theorem keywordSelector_apply {token : Token} (tokens : List Token)
    (member : keywordSelectorSyms.contains token.sym = true) :
    keywordSelector.run (parser.reading (token :: tokens)) =
      ⟨.ok token.text, parser.reading tokens, []⟩ := by
  rw [keywordSelector, text_bind, Process.bind_of_silent (expectOneOf_member tokens member)]
  rfl

theorem selector_apply (selector : SelectorToken) (tokens : List Token) :
    Parser.selector.run (parser.reading (selector.token :: tokens)) =
      ⟨.ok selector.token.text, parser.reading tokens, []⟩ := by
  obtain ⟨token, named⟩ := selector
  rw [Parser.selector, sym_bind, headSym, List.headD_cons]
  by_cases binary : token.sym = .operatorSequence ∨ singleOpSyms.contains token.sym = true
  · rw [if_pos binary, binarySelector_apply tokens]
    rcases binary with binary | binary
    · exact Or.inl (by rw [binary]; rfl)
    · exact Or.inr binary
  · rw [if_neg binary]
    by_cases keyword : token.sym = .keyword ∨ token.sym = .keywordSequence
    · rw [if_pos keyword, keywordSelector_apply tokens]
      rcases keyword with keyword | keyword <;> rw [keyword] <;> rfl
    · rw [if_neg keyword, unarySelector_apply tokens]
      tauto

/-! ### Variables and literals -/

theorem genPushVariable_apply (name : String) :
    (genPushVariable name).run parser =
      ⟨.ok (), parser.perform (pushVariable parser.environment name), []⟩ := by
  rw [genPushVariable, read_bind]
  simp only [pushVariable, environment]
  cases findVar name parser.scopes 0 with
  | none =>
      simp only [symbolFor_bind]
      by_cases field : parser.classContext.findField name = true
      · simp only [field, if_true]
        rfl
      · simp only [field]
        rfl
  | some slot =>
      obtain ⟨index, context, isArgument⟩ := slot
      cases isArgument <;> rfl

theorem genPopVariable_apply (name : String) :
    (genPopVariable name).run parser =
      ⟨.ok (), parser.perform (popVariable parser.environment name), []⟩ := by
  rw [genPopVariable, read_bind]
  simp only [popVariable, environment]
  cases findVar name parser.scopes 0 with
  | none => rfl
  | some slot =>
      obtain ⟨index, context, isArgument⟩ := slot
      cases isArgument <;> rfl

@[simp] theorem headSym_cons (token : Token) (tokens : List Token) :
    headSym (token :: tokens) = token.sym := rfl

theorem literalSymbol_apply (selector : SelectorToken) (tokens : List Token) :
    literalSymbol.run (parser.reading (Token.pound :: selector.token :: tokens)) =
      ⟨.ok (), (parser.perform [.addLiteralIfAbsent (.symbol selector.token.text),
        .emit (.pushConstant (.symbol selector.token.text))]).reading tokens, []⟩ := by
  have noString : ¬headSym (selector.token :: tokens) = .stString := by
    intro isString
    have named := selector.named
    rw [show selector.token.sym = .stString from isString] at named
    exact absurd named (by decide)
  rw [literalSymbol, Process.bind_of_silent (expect_same .pound Token.pound _ rfl),
    sym_bind]
  simp only [if_neg noString]
  rw [Process.bind_of_silent (selector_apply selector tokens)]
  rfl

theorem literal_apply (source : LiteralSource) (tokens : List Token) :
    Parser.literal.run (parser.reading (source.tokens ++ tokens)) =
      ⟨.ok (), (parser.extend source.generate).reading tokens, []⟩ := by
  cases source with
  | integer digits => rfl
  | negative digits => rfl
  | string chars => rfl
  | symbol selector =>
      have silent : (LiteralSource.symbol selector).generate = .actions
          [.addLiteralIfAbsent (.symbol selector.token.text),
            .emit (.pushConstant (.symbol selector.token.text))] := rfl
      rw [silent, extend_actions]
      exact literalSymbol_apply selector tokens
  | symbolString chars =>
      have silent : (LiteralSource.symbolString chars).generate = .actions
          [.addLiteralIfAbsent (.symbol chars), .emit (.pushConstant (.symbol chars))] := rfl
      rw [silent, extend_actions]
      rfl

/-! ### Loops without nesting -/

theorem unaryMessages_apply (keepSuper : Bool) (unaries : List Identifier) {tokens : List Token}
    (stops : headSym tokens ≠ .identifier) :
    ∀ (parser : Parser) (super : Bool) (calls : Nat), parser.Opened → unaries.length < calls →
      (unaryMessages keepSuper calls super).run
          (parser.reading (unaries.map Identifier.token ++ tokens)) =
        ⟨.ok (), (parser.perform (unaryActions keepSuper super unaries)).reading tokens, []⟩ := by
  induction unaries with
  | nil =>
      intro parser super calls opened enough
      obtain ⟨calls, rfl⟩ : ∃ more, calls = more + 1 := ⟨calls - 1, by omega⟩
      rw [unaryMessages, List.map_nil, List.nil_append, sym_bind, if_neg stops, unaryActions,
        perform_nil opened]
      rfl
  | cons selector rest inductionHypothesis =>
      intro parser super calls opened enough
      rw [List.length_cons] at enough
      obtain ⟨calls, rfl⟩ : ∃ more, calls = more + 1 := ⟨calls - 1, by omega⟩
      have message : (unaryMessage super).run
          (parser.reading (selector.token :: (rest.map Identifier.token ++ tokens))) =
            ⟨.ok (), (parser.perform [.addLiteralIfAbsent (.symbol selector.text),
              .emit (sendInstruction super selector.text)]).reading
                (rest.map Identifier.token ++ tokens), []⟩ := by
        rw [unaryMessage, Process.bind_of_silent (unarySelector_apply _ (Or.inl rfl))]
        cases super <;> rfl
      rw [unaryMessages, List.map_cons, List.cons_append, sym_bind,
        headSym_cons, if_pos selector.sym_token,
        Process.bind_of_silent message, inductionHypothesis _ _ _ (perform_opened _ _) (by omega),
        perform_perform]
      rfl

theorem assignments_apply (target : Identifier) (targets : List Identifier)
    {tokens : List Token} (stops : headSym tokens.tail ≠ .assign) :
    ∀ (parser : Parser) (calls : Nat), targets.length < calls →
      (assignments calls).run (parser.reading (targetTokens (target :: targets) ++ tokens)) =
        ⟨.ok ((target :: targets).map Identifier.text),
          (parser.perform ((target :: targets).map
            fun target => .addLiteralIfAbsent (.symbol target.text))).reading tokens, []⟩ := by
  have one (target : Identifier) (parser : Parser) (tokens : List Token) :
      assignment.run (parser.reading (target.token :: Token.assign :: tokens)) =
        ⟨.ok target.text, (parser.perform
          [.addLiteralIfAbsent (.symbol target.text)]).reading tokens, []⟩ := rfl
  induction targets generalizing target with
  | nil =>
      intro parser calls enough
      obtain ⟨calls, rfl⟩ : ∃ more, calls = more + 1 := ⟨calls - 1, by omega⟩
      rw [show targetTokens [target] ++ tokens = target.token :: Token.assign :: tokens from rfl,
        assignments, sym_bind, headSym_cons, if_pos target.sym_token,
        Process.bind_of_silent (one _ _ _), peek_bind, if_neg stops]
      rfl
  | cons next targets inductionHypothesis =>
      intro parser calls enough
      rw [List.length_cons] at enough
      obtain ⟨calls, rfl⟩ : ∃ more, calls = more + 1 := ⟨calls - 1, by omega⟩
      have again : headSym (targetTokens (next :: targets) ++ tokens).tail = .assign := rfl
      rw [show targetTokens (target :: next :: targets) ++ tokens =
          target.token :: Token.assign :: (targetTokens (next :: targets) ++ tokens) from rfl,
        assignments, sym_bind, headSym_cons, if_pos target.sym_token,
        Process.bind_of_silent (one _ _ _), peek_bind, if_pos again,
        Process.bind_of_silent (inductionHypothesis next _ _ (by omega)), perform_perform]
      rfl

/-- A loop that adds one name a round, as `locals` does. -/
theorem locals_apply (names : List Identifier) {tokens : List Token}
    (stops : headSym tokens ≠ .identifier) :
    ∀ (parser : Parser) (calls : Nat), parser.Opened → names.length < calls →
      (locals calls).run (parser.reading (names.map Identifier.token ++ tokens)) =
        ⟨.ok (), (parser.updateMgenc fun mgenc => names.foldl
          (fun mgenc name => mgenc.addLocalIfAbsent name.text) mgenc).reading tokens, []⟩ := by
  induction names with
  | nil =>
      intro parser calls opened enough
      obtain ⟨calls, rfl⟩ : ∃ more, calls = more + 1 := ⟨calls - 1, by omega⟩
      rw [locals, List.map_nil, List.nil_append, sym_bind, if_neg stops]
      exact congrArg (fun parser => Outcome.mk (.ok ()) (parser.reading tokens) [])
        (perform_nil opened).symm
  | cons name rest inductionHypothesis =>
      intro parser calls opened enough
      rw [List.length_cons] at enough
      obtain ⟨calls, rfl⟩ : ∃ more, calls = more + 1 := ⟨calls - 1, by omega⟩
      rw [locals, List.map_cons, List.cons_append, sym_bind, headSym_cons,
        if_pos name.sym_token, variableName,
        Process.bind_of_silent (identifier_apply _ (Or.inl name.sym_token)), modifyMgenc_bind,
        reading_updateMgenc]
      exact inductionHypothesis (parser.updateMgenc (·.addLocalIfAbsent name.text)) _
        (List.cons_ne_nil _ _) (by omega)

/-- The parameters of a block, each behind its colon. -/
def colonTokens (parameters : List Parameter) : List Token :=
  parameters.flatMap fun parameter => [Token.colon, parameter.token]

theorem blockArguments_apply (parameters : List Parameter) (first : Parameter)
    {tokens : List Token} (stops : headSym tokens ≠ .colon) :
    ∀ (parser : Parser) (calls : Nat), parameters.length < calls →
      (blockArguments calls).run (parser.reading (colonTokens (first :: parameters) ++ tokens)) =
        ⟨.ok (), (parser.updateMgenc fun mgenc => (first :: parameters).foldl
          (fun mgenc parameter => mgenc.addArgumentIfAbsent parameter.token.text)
            mgenc).reading tokens, []⟩ := by
  induction parameters generalizing first with
  | nil =>
      intro parser calls enough
      obtain ⟨calls, rfl⟩ : ∃ more, calls = more + 1 := ⟨calls - 1, by omega⟩
      rw [show colonTokens [first] ++ tokens = Token.colon :: first.token :: tokens from rfl,
        blockArguments, Process.bind_of_silent (expect_same .colon Token.colon _ rfl), argument,
        variableName, Process.bind_of_silent (identifier_apply _ first.named), modifyMgenc_bind,
        reading_updateMgenc, sym_bind, if_neg stops]
      rfl
  | cons next rest inductionHypothesis =>
      intro parser calls enough
      rw [List.length_cons] at enough
      obtain ⟨calls, rfl⟩ : ∃ more, calls = more + 1 := ⟨calls - 1, by omega⟩
      have again : headSym (colonTokens (next :: rest) ++ tokens) = .colon := rfl
      rw [show colonTokens (first :: next :: rest) ++ tokens =
          Token.colon :: first.token :: (colonTokens (next :: rest) ++ tokens) from rfl,
        blockArguments, Process.bind_of_silent (expect_same .colon Token.colon _ rfl), argument,
        variableName, Process.bind_of_silent (identifier_apply _ first.named), modifyMgenc_bind,
        reading_updateMgenc, sym_bind, if_pos again]
      exact inductionHypothesis next
        (parser.updateMgenc (·.addArgumentIfAbsent first.token.text)) _ (by omega)

/-! ### What a tree may be followed by -/

/-- Tokens at which an expression ends. -/
structure EndsExpression (tokens : List Token) : Prop where
  noMessage : (headSym tokens).startsMessage = false
  noAssign : headSym tokens ≠ .assign

/-- The symbols an expression can start with. -/
def expressionStarts : List Symbol :=
  [.identifier, .newTerm, .newBlock, .integer, .minus, .stString, .pound]

theorem startsMessage_eq_false_iff (sym : Symbol) : sym.startsMessage = false ↔
    sym ≠ .identifier ∧ sym ≠ .keyword ∧ sym.isBinaryOperator = false := by
  cases sym <;> decide

theorem Operator.ne_identifier (operator : Operator) : operator.token.sym ≠ .identifier := by
  intro named
  have impossible := operator.operator
  rw [named] at impossible
  exact absurd impossible (by decide)

theorem Operator.ne_assign (operator : Operator) : operator.token.sym ≠ .assign := by
  intro named
  have impossible := operator.operator
  rw [named] at impossible
  exact absurd impossible (by decide)

theorem headSym_unaries (unaries : List Identifier) (tokens : List Token) :
    headSym (unaries.map Identifier.token ++ tokens) =
      if unaries.isEmpty then headSym tokens else .identifier := by
  cases unaries <;> rfl

theorem headSym_binaries (binaries : Binaries) (tokens : List Token) :
    headSym (binaries.tokens ++ tokens) = headSym tokens ∨
      (headSym (binaries.tokens ++ tokens)).isBinaryOperator = true := by
  cases binaries with
  | done => exact Or.inl rfl
  | message operator primary unaries rest => exact Or.inr operator.operator

theorem headSym_keywords (keywords : Keywords) (tokens : List Token) :
    headSym (keywords.tokens ++ tokens) =
      if keywords.isDone then headSym tokens else .keyword := by
  cases keywords <;> rfl

end

end Parser

end Somr.Compiler
