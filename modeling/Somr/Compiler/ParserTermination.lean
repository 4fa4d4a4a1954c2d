import Somr.Compiler.ParserRules
import Somr.Compiler.ParserSteps
import Somr.Foundation.Recursion

/-!
Owns the termination of the parser on every token stream.

`Invokes` lists the calls a procedure makes, each with the tokens that are left
when it is made. A cycle of calls uses up a token, and the calls of a procedure
decide whether it returns, so no procedure runs out of calls.
-/

namespace Somr.Compiler.Parser

open Somr.Foundation

/-! ### What runs leave of the tokens -/

/-- Tokens are only taken from the front. -/
def takesTokens : RunRelation SyntaxError Parser where
  allowed _ := True
  holds before _ after := after.tokens <:+ before.tokens
  refl _ := List.suffix_rfl
  trans early late := late.trans early

/-- Every run of the computation only takes tokens. -/
def Takes {Value : Type} (process : ParserM Value) : Prop := process.Obeys takesTokens

theorem takes_of_tokens {Value : Type} {process : ParserM Value}
    (same : ∀ parser, (process.run parser).state.tokens = parser.tokens) : Takes process := by
  intro parser _ _
  have suffix : (process.run parser).state.tokens <:+ parser.tokens := by
    simp [same parser]
  exact ⟨suffix, fun _ _ => trivial⟩

theorem takesFree : FreeRules fun _ => Takes where
  pure := Process.obeys_pure
  bind := Process.Obeys.bind
  sym := takes_of_tokens fun _ => rfl
  text := takes_of_tokens fun _ => rfl
  peek := takes_of_tokens fun _ => rfl
  read := Process.obeys_read
  getSym := fun parser _ _ => ⟨List.tail_suffix parser.tokens, fun _ _ => trivial⟩
  report _ := takes_of_tokens fun _ => rfl
  contexts _ := takes_of_tokens fun _ => rfl
  allocate _ := takes_of_tokens fun _ => rfl
  classContext _ _ := takes_of_tokens fun _ => rfl

theorem takesRules : LoopRules fun _ => Takes where
  toStepRules := takesFree.stepRules
  stop := Process.obeys_stop ParserStop.overrun

theorem Takes.suffix {Value : Type} {process : ParserM Value} (takes : Takes process)
    {parser after : Parser} {value : Value} (ran : process.Runs parser value after) :
    after.tokens <:+ parser.tokens := by
  obtain ⟨events, ran⟩ := ran
  have related := (takes parser trivial fun _ _ => trivial).1
  rw [ran] at related
  exact related

/-- Every run from this state takes a token. -/
def Consumes {Value : Type} (process : ParserM Value) (parser : Parser) : Prop :=
  ∀ value after, process.Runs parser value after → after.tokens.length < parser.tokens.length

theorem Consumes.bind {Value Next : Type} {first : ParserM Value} {rest : Value → ParserM Next}
    {parser : Parser} (consumes : Consumes first parser) (takes : ∀ value, Takes (rest value)) :
    Consumes (first >>= rest) parser := by
  rintro last after ⟨events, ran⟩
  obtain ⟨value, middle, early, late, ranFirst, ranRest, _⟩ := Process.bind_eq_ok ran
  have shorter := consumes value middle ⟨early, ranFirst⟩
  have suffix := (takes value).suffix ⟨late, ranRest⟩
  exact Nat.lt_of_le_of_lt suffix.length_le shorter

/-- A first part that changes nothing. -/
theorem Consumes.of_silent {Value Next : Type} {first : ParserM Value}
    {rest : Value → ParserM Next} {parser : Parser} (value : Value)
    (silent : first.run parser = ⟨.ok value, parser, []⟩) (consumes : Consumes (rest value) parser) :
    Consumes (first >>= rest) parser := by
  rintro last after ⟨events, ran⟩
  rw [Process.bind_of_silent silent] at ran
  exact consumes last after ⟨events, ran⟩

theorem length_tail_lt {parser : Parser} (real : parser.current.sym ≠ .none) :
    parser.tokens.tail.length < parser.tokens.length := by
  cases tokens : parser.tokens with
  | nil => exact absurd (by rw [current, tokens]; rfl) real
  | cons token others => exact Nat.lt_succ_self _

theorem accept_run (s : Symbol) (parser : Parser) :
    (accept s).run parser = if parser.current.sym = s
      then ⟨.ok true, { parser with tokens := parser.tokens.tail }, []⟩
      else ⟨.ok false, parser, []⟩ := by
  have unfolded : (accept s).run parser =
      (if parser.current.sym = s then (do getSym; return true : ParserM Bool)
        else return false).run parser := rfl
  rw [unfolded]
  split <;> rfl

theorem consumes_accept {s : Symbol} {parser : Parser} (found : parser.current.sym = s)
    (real : s ≠ .none) : Consumes (accept s) parser := by
  rintro value after ⟨events, ran⟩
  rw [accept_run, if_pos found] at ran
  cases ran
  exact length_tail_lt (found ▸ real)

theorem consumes_expect {s : Symbol} {parser : Parser} (found : parser.current.sym = s)
    (real : s ≠ .none) : Consumes (expect s) parser := by
  apply (consumes_accept found real).bind fun accepted => ?_
  exact takesRules.ite (takesRules.pure true)
    (takesRules.bind (takesRules.report _) fun _ => takesRules.pure false)

/-- A test for a token: either it is taken, or nothing happens. -/
theorem consumes_accept_else {Value : Type} {s : Symbol} {yes no : ParserM Value}
    {parser : Parser} (real : s ≠ .none) (takes : Takes yes)
    (other : parser.current.sym ≠ s → Consumes no parser) :
    Consumes (accept s >>= fun accepted => if accepted then yes else no) parser := by
  by_cases found : parser.current.sym = s
  · rintro value after ⟨events, ran⟩
    rw [Process.bind_of_silent (by rw [accept_run, if_pos found])] at ran
    have suffix := takes.suffix ⟨events, ran⟩
    exact Nat.lt_of_le_of_lt suffix.length_le (length_tail_lt (found ▸ real))
  · have silent : (accept s).run parser = ⟨.ok false, parser, []⟩ := by
      rw [accept_run, if_neg found]
    exact Consumes.of_silent false silent (other found)

theorem acceptOneOf_run (ss : List Symbol) (parser : Parser) :
    (acceptOneOf ss).run parser = if ss.contains parser.current.sym
      then ⟨.ok true, { parser with tokens := parser.tokens.tail }, []⟩
      else ⟨.ok false, parser, []⟩ := by
  have unfolded : (acceptOneOf ss).run parser =
      (if ss.contains parser.current.sym then (do getSym; return true : ParserM Bool)
        else return false).run parser := rfl
  rw [unfolded]
  split <;> rfl

theorem consumes_acceptOneOf {ss : List Symbol} {parser : Parser}
    (found : ss.contains parser.current.sym = true) (real : parser.current.sym ≠ .none) :
    Consumes (acceptOneOf ss) parser := by
  rintro value after ⟨events, ran⟩
  rw [acceptOneOf_run, if_pos found] at ran
  cases ran
  exact length_tail_lt real

/-! ### Tokens that are taken -/

theorem consumes_identifier {parser : Parser} (found : parser.current.sym = .identifier) :
    Consumes identifier parser := by
  apply Consumes.of_silent parser.current.text rfl
  apply consumes_accept_else (by decide) (takesRules.pure _) fun _ => ?_
  exact (consumes_expect found (by decide)).bind fun _ => takesRules.pure _

theorem consumes_keyword {parser : Parser} (found : parser.current.sym = .keyword) :
    Consumes keyword parser := by
  apply Consumes.of_silent parser.current.text rfl
  exact (consumes_expect found (by decide)).bind fun _ => takesRules.pure _

theorem consumes_unaryMessage (super : Bool) {parser : Parser}
    (found : parser.current.sym = .identifier) : Consumes (unaryMessage super) parser := by
  apply Consumes.bind ?_ fun msg => ?_
  · exact (consumes_identifier found).bind fun s =>
      takesRules.bind (takesRules.symbolFor s) fun _ => takesRules.pure s
  · exact takesRules.bind (takesFree.modifyMgenc _) fun _ => takesRules.emitMessage super msg

theorem consumes_assignment {parser : Parser} (found : parser.current.sym = .identifier) :
    Consumes assignment parser := by
  apply (consumes_identifier found).bind fun v => ?_
  apply takesRules.bind (takesRules.symbolFor v) fun _ => ?_
  apply takesRules.bind (takesFree.modifyMgenc _) fun _ => ?_
  exact takesRules.bind (takesRules.expect .assign) fun _ => takesRules.pure v

/-- Every operator of the loop guards is one that `binarySelector` takes. -/
theorem consumes_binarySelector {parser : Parser}
    (found : parser.current.sym.isBinaryOperator = true) : Consumes binarySelector parser := by
  have ends : ∀ s : String, Takes (do let _ ← symbolFor s; return s : ParserM String) := fun s =>
    takesRules.bind (takesRules.symbolFor s) fun _ => takesRules.pure s
  apply Consumes.of_silent parser.current.text rfl
  apply consumes_accept_else (by decide) (ends _) fun noOr => ?_
  apply consumes_accept_else (by decide) (ends _) fun noComma => ?_
  apply consumes_accept_else (by decide) (ends _) fun noMinus => ?_
  apply consumes_accept_else (by decide) (ends _) fun noEqual => ?_
  have last : Takes (do
      if ← accept .operatorSequence then pure () else let _ ← expect .none
      let _ ← symbolFor parser.current.text
      return parser.current.text : ParserM String) := by
    apply takesRules.bind (takesRules.accept _) fun _ => takesRules.ite (ends _) ?_
    exact takesRules.bind (takesRules.expect .none) fun _ => ends _
  by_cases single : singleOpSyms.contains parser.current.sym = true
  · have real : parser.current.sym ≠ .none := by
      intro isNone
      rw [isNone] at single
      exact absurd single (by decide)
    exact (consumes_acceptOneOf single real).bind fun _ => takesRules.ite (ends _) last
  · have silent : (acceptOneOf singleOpSyms).run parser = ⟨.ok false, parser, []⟩ := by
      rw [acceptOneOf_run, if_neg single]
    apply Consumes.of_silent false silent
    apply consumes_accept_else (by decide) (ends _) fun noSequence => ?_
    generalize parser.current.sym = found' at *
    cases found' <;> simp_all [Symbol.isBinaryOperator, binaryOpSyms, singleOpSyms]

/-! ### Calls -/

/-- The procedures that loop or recurse; the loops are procedures of their own. -/
inductive Procedure where
  | expression | assignation | assignments | evaluation | primary | messages | unaryMessages
  | binaryMessages | binaryMessage | binaryOperand | keywordMessage | keywordArguments | formula
  | nestedTerm | nestedBlock | blockArguments | blockContents | locals | blockBody | result
  | keywordPatternArguments | fieldNames | methods
deriving DecidableEq, Repr

/-- With `calls` nested calls the procedure returns, whatever its flags are. -/
def Returns (calls : Nat) (parser : Parser) : Procedure → Prop
  | .expression => (expression calls).Finishes parser
  | .assignation => (assignation calls).Finishes parser
  | .assignments => (assignments calls).Finishes parser
  | .evaluation => (evaluation calls).Finishes parser
  | .primary => (primary calls).Finishes parser
  | .messages => ∀ super, (messages calls super).Finishes parser
  | .unaryMessages => ∀ keepSuper super, (unaryMessages keepSuper calls super).Finishes parser
  | .binaryMessages => ∀ super, (binaryMessages calls super).Finishes parser
  | .binaryMessage => ∀ super, (binaryMessage calls super).Finishes parser
  | .binaryOperand => (binaryOperand calls).Finishes parser
  | .keywordMessage => ∀ super, (keywordMessage calls super).Finishes parser
  | .keywordArguments => (keywordArguments calls).Finishes parser
  | .formula => (formula calls).Finishes parser
  | .nestedTerm => (nestedTerm calls).Finishes parser
  | .nestedBlock => (nestedBlock calls).Finishes parser
  | .blockArguments => (blockArguments calls).Finishes parser
  | .blockContents => (blockContents calls).Finishes parser
  | .locals => (locals calls).Finishes parser
  | .blockBody => ∀ seenPeriod, (blockBody calls seenPeriod).Finishes parser
  | .result => (result calls).Finishes parser
  | .keywordPatternArguments => (keywordPatternArguments calls).Finishes parser
  | .fieldNames => ∀ add, (fieldNames add calls).Finishes parser
  | .methods => ∀ add, (methods add calls).Finishes parser

/-- The nested block of `primary` has a context of its own. -/
def enterBlock (parser : Parser) : Parser :=
  { parser with contexts := { blockMethod := true } :: parser.contexts }

/-- The beginning of a method. -/
def enterMethod (parser : Parser) : Parser :=
  { parser with contexts := [{ toScope := { arguments := ["self"] } }] }

/-- The calls a procedure makes: what it has run before the call, and what it has
tested. -/
inductive Invokes : Procedure × Parser → Procedure × Parser → Prop
  | expressionAssignation (parser : Parser) (assigns : parser.next.sym = .assign) :
      Invokes (.expression, parser) (.assignation, parser)
  | expressionEvaluation (parser : Parser) (other : parser.next.sym ≠ .assign) :
      Invokes (.expression, parser) (.evaluation, parser)
  | assignationAssignments (parser : Parser) :
      Invokes (.assignation, parser) (.assignments, parser)
  | assignationEvaluation (parser after : Parser) (calls : Nat) (targets : List String)
      (ran : (assignments calls).Runs parser targets after) :
      Invokes (.assignation, parser) (.evaluation, after)
  | assignmentsAssignments (parser after : Parser) (target : String)
      (found : parser.current.sym = .identifier) (ran : assignment.Runs parser target after)
      (again : after.next.sym = .assign) : Invokes (.assignments, parser) (.assignments, after)
  | evaluationPrimary (parser : Parser) : Invokes (.evaluation, parser) (.primary, parser)
  | evaluationMessages (parser after : Parser) (calls : Nat) (super : Bool)
      (ran : (primary calls).Runs parser super after)
      (starts : after.current.sym.startsMessage = true) :
      Invokes (.evaluation, parser) (.messages, after)
  | primaryNestedTerm (parser : Parser) (found : parser.current.sym = .newTerm) :
      Invokes (.primary, parser) (.nestedTerm, parser)
  | primaryNestedBlock (parser : Parser) (found : parser.current.sym = .newBlock) :
      Invokes (.primary, parser) (.nestedBlock, parser.enterBlock)
  | messagesUnary (parser : Parser) (found : parser.current.sym = .identifier) :
      Invokes (.messages, parser) (.unaryMessages, parser)
  | messagesUnaryBinary (parser after : Parser) (calls : Nat) (super : Bool)
      (found : parser.current.sym = .identifier)
      (ran : (unaryMessages false calls super).Runs parser () after) :
      Invokes (.messages, parser) (.binaryMessages, after)
  | messagesUnaryKeyword (parser between after : Parser) (calls : Nat) (super : Bool)
      (found : parser.current.sym = .identifier)
      (ran : (unaryMessages false calls super).Runs parser () between)
      (ranBinary : (binaryMessages calls false).Runs between () after)
      (again : after.current.sym = .keyword) : Invokes (.messages, parser) (.keywordMessage, after)
  | messagesBinary (parser : Parser) (other : parser.current.sym ≠ .identifier)
      (found : parser.current.sym.isBinaryOperator = true) :
      Invokes (.messages, parser) (.binaryMessages, parser)
  | messagesBinaryKeyword (parser after : Parser) (calls : Nat) (super : Bool)
      (other : parser.current.sym ≠ .identifier)
      (found : parser.current.sym.isBinaryOperator = true)
      (ran : (binaryMessages calls super).Runs parser () after)
      (again : after.current.sym = .keyword) : Invokes (.messages, parser) (.keywordMessage, after)
  | messagesKeyword (parser : Parser) (other : parser.current.sym ≠ .identifier)
      (noOperator : ¬ parser.current.sym.isBinaryOperator = true) :
      Invokes (.messages, parser) (.keywordMessage, parser)
  | unaryMessagesAgain (parser after : Parser) (super : Bool)
      (found : parser.current.sym = .identifier) (ran : (unaryMessage super).Runs parser () after) :
      Invokes (.unaryMessages, parser) (.unaryMessages, after)
  | binaryMessagesMessage (parser : Parser)
      (found : parser.current.sym.isBinaryOperator = true) :
      Invokes (.binaryMessages, parser) (.binaryMessage, parser)
  | binaryMessagesAgain (parser after : Parser) (calls : Nat) (super : Bool)
      (found : parser.current.sym.isBinaryOperator = true)
      (ran : (binaryMessage calls super).Runs parser () after) :
      Invokes (.binaryMessages, parser) (.binaryMessages, after)
  | binaryMessageOperand (parser after : Parser) (msg : String)
      (ran : binarySelector.Runs parser msg after) :
      Invokes (.binaryMessage, parser)
        (.binaryOperand, after.updateMgenc (·.addLiteralIfAbsent (.symbol msg)))
  | binaryOperandPrimary (parser : Parser) : Invokes (.binaryOperand, parser) (.primary, parser)
  | binaryOperandUnary (parser after : Parser) (calls : Nat) (super : Bool)
      (ran : (primary calls).Runs parser super after) :
      Invokes (.binaryOperand, parser) (.unaryMessages, after)
  | keywordMessageArguments (parser : Parser) :
      Invokes (.keywordMessage, parser) (.keywordArguments, parser)
  | keywordArgumentsFormula (parser after : Parser) (kw : String)
      (ran : keyword.Runs parser kw after) : Invokes (.keywordArguments, parser) (.formula, after)
  | keywordArgumentsAgain (parser between after : Parser) (calls : Nat) (kw : String)
      (ran : keyword.Runs parser kw between) (ranFormula : (formula calls).Runs between () after)
      (again : after.current.sym = .keyword) :
      Invokes (.keywordArguments, parser) (.keywordArguments, after)
  | formulaOperand (parser : Parser) : Invokes (.formula, parser) (.binaryOperand, parser)
  | formulaMessages (parser after : Parser) (calls : Nat) (super : Bool)
      (ran : (binaryOperand calls).Runs parser super after) :
      Invokes (.formula, parser) (.binaryMessages, after)
  | nestedTermExpression (parser after : Parser) (accepted : Bool)
      (ran : (expect .newTerm).Runs parser accepted after) :
      Invokes (.nestedTerm, parser) (.expression, after)
  | nestedBlockArguments (parser after : Parser) (accepted : Bool)
      (ran : (expect .newBlock).Runs
        (parser.updateMgenc (·.addArgumentIfAbsent "$block self")) accepted after)
      (found : after.current.sym = .colon) :
      Invokes (.nestedBlock, parser) (.blockArguments, after)
  | nestedBlockContents (parser between after : Parser) (calls : Nat) (accepted : Bool)
      (signature : String)
      (ran : (expect .newBlock).Runs
        (parser.updateMgenc (·.addArgumentIfAbsent "$block self")) accepted between)
      (ranPattern : if between.current.sym = .colon then (blockPattern calls).Runs between () after
        else after = between) :
      Invokes (.nestedBlock, parser)
        (.blockContents, after.updateMgenc fun mgenc => { mgenc with signature := signature })
  | blockArgumentsAgain (parser between after : Parser) (accepted : Bool) (name : String)
      (ran : (expect .colon).Runs parser accepted between)
      (ranName : argument.Runs between name after) (again : after.current.sym = .colon) :
      Invokes (.blockArguments, parser)
        (.blockArguments, after.updateMgenc (·.addArgumentIfAbsent name))
  | blockContentsLocals (parser after : Parser) (ran : (accept .or).Runs parser true after) :
      Invokes (.blockContents, parser) (.locals, after)
  | blockContentsBodyLocals (parser first second after : Parser) (calls : Nat) (accepted : Bool)
      (ran : (accept .or).Runs parser true first) (ranLocals : (locals calls).Runs first () second)
      (ranOr : (expect .or).Runs second accepted after) :
      Invokes (.blockContents, parser) (.blockBody, after)
  | blockContentsBody (parser after : Parser) (ran : (accept .or).Runs parser false after) :
      Invokes (.blockContents, parser) (.blockBody, after)
  | localsAgain (parser after : Parser) (name : String)
      (found : parser.current.sym = .identifier) (ran : variableName.Runs parser name after) :
      Invokes (.locals, parser) (.locals, after.updateMgenc (·.addLocalIfAbsent name))
  | blockBodyResult (parser after : Parser) (ran : (accept .exit).Runs parser true after) :
      Invokes (.blockBody, parser) (.result, after)
  | blockBodyExpression (parser after : Parser) (ran : (accept .exit).Runs parser false after) :
      Invokes (.blockBody, parser) (.expression, after)
  | blockBodyAgain (parser first second after : Parser) (calls : Nat)
      (ran : (accept .exit).Runs parser false first)
      (ranExpression : (expression calls).Runs first () second)
      (ranPeriod : (accept .period).Runs second true after) :
      Invokes (.blockBody, parser) (.blockBody, after.updateMgenc BytecodeGenerator.emitPOP)
  | resultExpression (parser : Parser) : Invokes (.result, parser) (.expression, parser)
  | keywordPatternAgain (parser between after : Parser) (kw name : String)
      (ran : keyword.Runs parser kw between) (ranName : argument.Runs between name after)
      (again : after.current.sym = .keyword) :
      Invokes (.keywordPatternArguments, parser)
        (.keywordPatternArguments, after.updateMgenc (·.addArgumentIfAbsent name))
  | fieldNamesAgain (parser after : Parser) (name : String)
      (change : ClassGenerationContext → ClassGenerationContext)
      (found : parser.current.sym = .identifier) (ran : variableName.Runs parser name after) :
      Invokes (.fieldNames, parser) (.fieldNames, after.updateClass change)
  | methodsPattern (parser : Parser) (found : parser.current.sym = .keyword) :
      Invokes (.methods, parser) (.keywordPatternArguments, parser.enterMethod)
  | methodsContents (parser first second after : Parser) (calls : Nat) (equal opened : Bool)
      (found : parser.current.sym.startsMessage = true)
      (ran : (pattern calls).Runs parser.enterMethod () first)
      (ranEqual : (expect .equal).Runs first equal second)
      (ranTerm : (expect .newTerm).Runs second opened after) :
      Invokes (.methods, parser) (.blockContents, after)
  | methodsAgain (parser after : Parser) (calls : Nat) (object : CompiledObject)
      (change : ClassGenerationContext → ClassGenerationContext)
      (found : parser.current.sym.startsMessage = true)
      (ran : (method calls).Runs parser.enterMethod () after) :
      Invokes (.methods, parser) (.methods, Parser.updateClass change
        { after with objects := after.objects ++ [object], contexts := [] })

/-! ### The calls decide whether a procedure returns -/

/-- The steps of the parser return in every state. -/
def Total {Value : Type} (process : ParserM Value) : Prop := ∀ parser, process.Finishes parser

theorem totalFree : FreeRules fun _ => Total where
  pure value := Process.finishes_pure value
  bind first rest parser := (first parser).bind fun value after _ => rest value after
  sym _ := ⟨_, _, [], rfl⟩
  text _ := ⟨_, _, [], rfl⟩
  peek _ := ⟨_, _, [], rfl⟩
  read _ := ⟨_, _, [], rfl⟩
  getSym _ := ⟨_, _, [], rfl⟩
  report _ _ := ⟨_, _, _, rfl⟩
  contexts _ _ := ⟨_, _, [], rfl⟩
  allocate _ _ := ⟨_, _, [], rfl⟩
  classContext _ _ _ := ⟨_, _, [], rfl⟩

theorem totalRules : StepRules fun _ => Total := totalFree.stepRules

section

variable {Value : Type} {parser : Parser}

/-- What follows a first part that changes nothing. -/
theorem finishes_silent {First : Type} {first : ParserM First} {rest : First → ParserM Value}
    (value : First) (silent : first.run parser = ⟨.ok value, parser, []⟩)
    (late : (rest value).Finishes parser) : (first >>= rest).Finishes parser := by
  obtain ⟨last, after, ran⟩ := late
  exact ⟨last, after, Process.Runs.bind ⟨[], silent⟩ ran⟩

theorem finishes_sym {rest : Symbol → ParserM Value}
    (late : (rest parser.current.sym).Finishes parser) : (sym >>= rest).Finishes parser :=
  finishes_silent _ rfl late

/-- What follows a change of the state. -/
theorem finishes_modify {change : Parser → Parser} {rest : Unit → ParserM Value}
    (late : (rest ()).Finishes (change parser)) :
    ((Process.modify change : ParserM Unit) >>= rest).Finishes parser := by
  obtain ⟨last, after, ran⟩ := late
  exact ⟨last, after, Process.Runs.bind ⟨[], rfl⟩ ran⟩

end

/-- Every call the procedure makes returns. -/
def CalleesReturn (calls : Nat) (procedure : Procedure) (parser : Parser) : Prop :=
  ∀ callee, Invokes (procedure, parser) callee → Returns calls callee.2 callee.1

variable {calls : Nat} {parser : Parser}

theorem returns_expression (callees : CalleesReturn calls .expression parser) :
    Returns (calls + 1) parser .expression := by
  apply finishes_silent parser.next.sym rfl
  apply Process.Finishes.ite
  · exact fun assigns => callees _ (.expressionAssignation parser assigns)
  · exact fun other => callees _ (.expressionEvaluation parser other)

theorem returns_assignation (callees : CalleesReturn calls .assignation parser) :
    Returns (calls + 1) parser .assignation := by
  have targets : (assignments calls).Finishes parser := callees _ (.assignationAssignments parser)
  apply targets.bind fun l after ran => ?_
  have evaluates : (evaluation calls).Finishes after :=
    callees _ (.assignationEvaluation parser after calls l ran)
  apply evaluates.bind fun _ after _ => ?_
  apply totalRules.bind (totalRules.forM l _ fun _ => totalFree.modifyMgenc _)
  exact fun _ => totalRules.forM l _ totalRules.genPopVariable

theorem returns_assignments (callees : CalleesReturn calls .assignments parser) :
    Returns (calls + 1) parser .assignments := by
  apply finishes_sym
  apply Process.Finishes.ite (fun found => ?_) fun _ => Process.finishes_pure _ _
  apply (totalRules.assignment parser).bind fun v after ran => ?_
  apply finishes_silent after.next.sym rfl
  apply Process.Finishes.ite (fun again => ?_) fun _ => Process.finishes_pure _ _
  have others : (assignments calls).Finishes after :=
    callees _ (.assignmentsAssignments parser after v found ran again)
  exact others.bind fun _ _ _ => Process.finishes_pure _ _

theorem returns_evaluation (callees : CalleesReturn calls .evaluation parser) :
    Returns (calls + 1) parser .evaluation := by
  have primaries : (primary calls).Finishes parser := callees _ (.evaluationPrimary parser)
  apply primaries.bind fun super after ran => ?_
  apply finishes_sym
  apply Process.Finishes.ite (fun starts => ?_) fun _ => Process.finishes_pure _ _
  exact callees _ (.evaluationMessages parser after calls super ran starts) super

theorem returns_primary (callees : CalleesReturn calls .primary parser) :
    Returns (calls + 1) parser .primary := by
  apply finishes_sym
  split
  · apply totalRules.bind totalRules.identifier fun v => totalRules.ite ?_ ?_
    · exact totalRules.bind (totalRules.genPushVariable "self") fun _ => totalRules.pure true
    · exact totalRules.bind (totalRules.genPushVariable v) fun _ => totalRules.pure false
  · next found =>
      have terms : (nestedTerm calls).Finishes parser := callees _ (.primaryNestedTerm parser found)
      exact terms.bind fun _ _ _ => Process.finishes_pure _ _
  · next found =>
      have blocks : (nestedBlock calls).Finishes parser.enterBlock :=
        callees _ (.primaryNestedBlock parser found)
      apply finishes_modify
      apply blocks.bind fun _ inner _ => ?_
      apply totalRules.bind totalRules.read fun read => ?_
      apply totalRules.bind (totalFree.contexts fun parser => parser.contexts.tail) fun _ => ?_
      apply totalRules.bind (totalFree.allocate _) fun blockMethod => ?_
      apply totalRules.bind (totalFree.modifyMgenc _) fun _ => ?_
      exact totalRules.bind (totalFree.modifyMgenc _) fun _ => totalRules.pure false
  · exact totalRules.bind totalRules.literal (fun _ => totalRules.pure false) parser

theorem returns_messages (callees : CalleesReturn calls .messages parser) :
    Returns (calls + 1) parser .messages := by
  intro super
  apply finishes_sym
  apply Process.Finishes.ite (fun found => ?_) fun other => ?_
  · have unaries : (unaryMessages false calls super).Finishes parser :=
      callees _ (.messagesUnary parser found) false super
    apply unaries.bind fun _ between ran => ?_
    have binaries : (binaryMessages calls false).Finishes between :=
      callees _ (.messagesUnaryBinary parser between calls super found ran) false
    apply binaries.bind fun _ after ranBinary => ?_
    apply finishes_sym
    apply Process.Finishes.ite (fun again => ?_) fun _ => Process.finishes_pure _ _
    exact callees _ (.messagesUnaryKeyword parser between after calls super found ran ranBinary
      again) false
  · apply finishes_sym
    apply Process.Finishes.ite (fun found => ?_) fun noOperator => ?_
    · have binaries : (binaryMessages calls super).Finishes parser :=
        callees _ (.messagesBinary parser other found) super
      apply binaries.bind fun _ after ran => ?_
      apply finishes_sym
      apply Process.Finishes.ite (fun again => ?_) fun _ => Process.finishes_pure _ _
      exact callees _ (.messagesBinaryKeyword parser after calls super other found ran again) false
    · exact callees _ (.messagesKeyword parser other noOperator) super

theorem returns_unaryMessages (callees : CalleesReturn calls .unaryMessages parser) :
    Returns (calls + 1) parser .unaryMessages := by
  intro keepSuper super
  apply finishes_sym
  apply Process.Finishes.ite (fun found => ?_) fun _ => Process.finishes_pure _ _
  apply (totalRules.unaryMessage super parser).bind fun _ after ran => ?_
  exact callees _ (.unaryMessagesAgain parser after super found ran) keepSuper _

theorem returns_binaryMessages (callees : CalleesReturn calls .binaryMessages parser) :
    Returns (calls + 1) parser .binaryMessages := by
  intro super
  apply finishes_sym
  apply Process.Finishes.ite (fun found => ?_) fun _ => Process.finishes_pure _ _
  have message : (binaryMessage calls super).Finishes parser :=
    callees _ (.binaryMessagesMessage parser found) super
  apply message.bind fun _ after ran => ?_
  exact callees _ (.binaryMessagesAgain parser after calls super found ran) false

theorem returns_binaryMessage (callees : CalleesReturn calls .binaryMessage parser) :
    Returns (calls + 1) parser .binaryMessage := by
  intro super
  apply (totalRules.binarySelector parser).bind fun msg after ran => ?_
  apply finishes_modify
  have operand : (binaryOperand calls).Finishes
      (after.updateMgenc (·.addLiteralIfAbsent (.symbol msg))) :=
    callees _ (.binaryMessageOperand parser after msg ran)
  exact operand.bind fun _ after _ => totalRules.emitMessage super msg after

theorem returns_binaryOperand (callees : CalleesReturn calls .binaryOperand parser) :
    Returns (calls + 1) parser .binaryOperand := by
  have primaries : (primary calls).Finishes parser := callees _ (.binaryOperandPrimary parser)
  apply primaries.bind fun super after ran => ?_
  have unaries : (unaryMessages true calls super).Finishes after :=
    callees _ (.binaryOperandUnary parser after calls super ran) true super
  exact unaries.bind fun _ _ _ => Process.finishes_pure _ _

theorem returns_keywordMessage (callees : CalleesReturn calls .keywordMessage parser) :
    Returns (calls + 1) parser .keywordMessage := by
  intro super
  have keywords : (keywordArguments calls).Finishes parser :=
    callees _ (.keywordMessageArguments parser)
  apply keywords.bind fun kw after _ => ?_
  apply totalRules.bind (totalRules.symbolFor kw) fun _ => ?_
  exact totalRules.bind (totalFree.modifyMgenc _) fun _ => totalRules.emitMessage super kw

theorem returns_keywordArguments (callees : CalleesReturn calls .keywordArguments parser) :
    Returns (calls + 1) parser .keywordArguments := by
  apply (totalRules.keyword parser).bind fun kw between ran => ?_
  have argument : (formula calls).Finishes between :=
    callees _ (.keywordArgumentsFormula parser between kw ran)
  apply argument.bind fun _ after ranFormula => ?_
  apply finishes_sym
  apply Process.Finishes.ite (fun again => ?_) fun _ => Process.finishes_pure _ _
  have others : (keywordArguments calls).Finishes after :=
    callees _ (.keywordArgumentsAgain parser between after calls kw ran ranFormula again)
  exact others.bind fun _ _ _ => Process.finishes_pure _ _

theorem returns_formula (callees : CalleesReturn calls .formula parser) :
    Returns (calls + 1) parser .formula := by
  have operand : (binaryOperand calls).Finishes parser := callees _ (.formulaOperand parser)
  apply operand.bind fun super after ran => ?_
  exact callees _ (.formulaMessages parser after calls super ran) super

theorem returns_nestedTerm (callees : CalleesReturn calls .nestedTerm parser) :
    Returns (calls + 1) parser .nestedTerm := by
  apply (totalRules.expect .newTerm parser).bind fun accepted after ran => ?_
  have inner : (expression calls).Finishes after :=
    callees _ (.nestedTermExpression parser after accepted ran)
  exact inner.bind fun _ after _ => totalRules.expectLast .endTerm after

/-- What `nestedBlock` does behind the pattern of the block. -/
theorem finishes_blockBehindPattern (opened : Parser)
    (contents : ∀ signature, (blockContents calls).Finishes
      (opened.updateMgenc fun mgenc => { mgenc with signature := signature })) :
    (do
      let parser ← Process.read
      let signature := blockSignature parser.mgenc.arguments.length
      let _ ← symbolFor signature
      setSignature signature
      blockContents calls
      let parser ← Process.read
      if !parser.mgenc.finished then
        modifyMgenc BytecodeGenerator.emitRETURNLOCAL
        modifyMgenc fun mgenc => { mgenc with finished := true }
      let _ ← expect .endBlock : ParserM Unit).Finishes opened := by
  have closes := totalRules.expectLast .endBlock
  apply finishes_silent opened rfl
  apply finishes_silent _ rfl
  apply finishes_modify
  apply (contents _).bind fun _ after _ => ?_
  apply totalRules.bind totalRules.read fun inner => ?_
  apply totalRules.ite ?_ closes
  exact totalRules.bind (totalFree.modifyMgenc _) fun _ =>
    totalRules.bind (totalFree.modifyMgenc _) fun _ => closes

theorem returns_nestedBlock (callees : CalleesReturn calls .nestedBlock parser) :
    Returns (calls + 1) parser .nestedBlock := by
  apply finishes_modify
  apply (totalRules.expect .newBlock _).bind fun accepted between ran => ?_
  apply finishes_sym
  apply Process.Finishes.ite (fun found => ?_) fun other => ?_
  · have arguments : (blockArguments calls).Finishes between :=
      callees _ (.nestedBlockArguments parser between accepted ran found)
    have pattern : (blockPattern calls).Finishes between :=
      arguments.bind fun _ after _ => totalRules.expectLast .or after
    apply pattern.bind fun _ opened ranPattern => ?_
    refine finishes_blockBehindPattern opened fun signature => ?_
    exact callees _ (.nestedBlockContents parser between opened calls accepted signature ran
      (by rw [if_pos found]; exact ranPattern))
  · refine finishes_blockBehindPattern between fun signature => ?_
    exact callees _ (.nestedBlockContents parser between between calls accepted signature ran
      (by rw [if_neg other]))

theorem returns_blockArguments (callees : CalleesReturn calls .blockArguments parser) :
    Returns (calls + 1) parser .blockArguments := by
  apply (totalRules.expect .colon parser).bind fun accepted between ran => ?_
  apply (totalRules.identifier between).bind fun name after ranName => ?_
  apply finishes_modify
  apply finishes_sym
  apply Process.Finishes.ite (fun again => ?_) fun _ => Process.finishes_pure _ _
  exact callees _ (.blockArgumentsAgain parser between after accepted name ran ranName again)

theorem returns_blockContents (callees : CalleesReturn calls .blockContents parser) :
    Returns (calls + 1) parser .blockContents := by
  apply (totalRules.accept .or parser).bind fun accepted first ran => ?_
  cases accepted with
  | true =>
      have names : (locals calls).Finishes first :=
        callees _ (.blockContentsLocals parser first ran)
      apply names.bind fun _ second ranLocals => ?_
      apply (totalRules.expect .or second).bind fun accepted after ranOr => ?_
      exact callees _ (.blockContentsBodyLocals parser first second after calls accepted ran
        ranLocals ranOr) false
  | false => exact callees _ (.blockContentsBody parser first ran) false

theorem returns_locals (callees : CalleesReturn calls .locals parser) :
    Returns (calls + 1) parser .locals := by
  apply finishes_sym
  apply Process.Finishes.ite (fun found => ?_) fun _ => Process.finishes_pure _ _
  apply (totalRules.identifier parser).bind fun name after ran => ?_
  apply finishes_modify
  exact callees _ (.localsAgain parser after name found ran)

theorem returns_blockBody (callees : CalleesReturn calls .blockBody parser) :
    Returns (calls + 1) parser .blockBody := by
  intro seenPeriod
  have finishes : Total (do
      modifyMgenc BytecodeGenerator.emitRETURNLOCAL
      modifyMgenc fun mgenc => { mgenc with finished := true } : ParserM Unit) :=
    totalRules.bind (totalFree.modifyMgenc _) fun _ => totalFree.modifyMgenc _
  apply (totalRules.accept .exit parser).bind fun accepted first ran => ?_
  cases accepted with
  | true => exact callees _ (.blockBodyResult parser first ran)
  | false =>
      apply finishes_sym
      apply Process.Finishes.ite (fun _ => ?_) fun _ => ?_
      · exact totalRules.ite (totalRules.bind (totalFree.modifyMgenc _) fun _ => finishes)
          finishes first
      apply finishes_sym
      apply Process.Finishes.ite (fun _ => ?_) fun _ => ?_
      · exact totalRules.bind (totalFree.modifyMgenc _) (fun _ => finishes) first
      have statement : (expression calls).Finishes first :=
        callees _ (.blockBodyExpression parser first ran)
      apply statement.bind fun _ second ranExpression => ?_
      apply (totalRules.accept .period second).bind fun accepted after ranPeriod => ?_
      cases accepted with
      | true =>
          apply finishes_modify
          exact callees _ (.blockBodyAgain parser first second after calls ran ranExpression
            ranPeriod) true
      | false => exact Process.finishes_pure _ _

theorem returns_result (callees : CalleesReturn calls .result parser) :
    Returns (calls + 1) parser .result := by
  have inner : (expression calls).Finishes parser := callees _ (.resultExpression parser)
  apply inner.bind fun _ after _ => ?_
  apply totalRules.bind (totalFree.modifyMgenc _) fun _ => ?_
  apply totalRules.bind (totalFree.modifyMgenc _) fun _ => ?_
  exact totalRules.bind (totalRules.accept .period) fun _ => totalRules.pure ()

theorem returns_keywordPatternArguments
    (callees : CalleesReturn calls .keywordPatternArguments parser) :
    Returns (calls + 1) parser .keywordPatternArguments := by
  apply (totalRules.keyword parser).bind fun kw between ran => ?_
  apply (totalRules.identifier between).bind fun name after ranName => ?_
  apply finishes_modify
  apply finishes_sym
  apply Process.Finishes.ite (fun again => ?_) fun _ => Process.finishes_pure _ _
  have others : (keywordPatternArguments calls).Finishes
      (after.updateMgenc (·.addArgumentIfAbsent name)) :=
    callees _ (.keywordPatternAgain parser between after kw name ran ranName again)
  exact others.bind fun _ _ _ => Process.finishes_pure _ _

theorem returns_fieldNames (callees : CalleesReturn calls .fieldNames parser) :
    Returns (calls + 1) parser .fieldNames := by
  intro add
  apply finishes_sym
  apply Process.Finishes.ite (fun found => ?_) fun _ => Process.finishes_pure _ _
  apply (totalRules.identifier parser).bind fun var after ran => ?_
  apply finishes_silent _ rfl
  apply finishes_modify
  exact callees _ (.fieldNamesAgain parser after var (add var) found ran) add

/-- `Method` returns if the keyword loop and the block it calls do. -/
theorem finishes_method
    (pattern : parser.current.sym = .keyword → (keywordPatternArguments calls).Finishes parser)
    (contents : ∀ first second after equal opened, (Parser.pattern calls).Runs parser () first →
      (expect .equal).Runs first equal second → (expect .newTerm).Runs second opened after →
      (blockContents calls).Finishes after) : (method calls).Finishes parser := by
  have patterns : (Parser.pattern calls).Finishes parser := by
    apply finishes_sym
    split
    · exact totalRules.bind totalRules.unarySelector (fun _ => totalFree.modifyMgenc _) parser
    · next found =>
        apply (pattern found).bind fun kw after _ => ?_
        exact totalRules.bind (totalRules.symbolFor kw) (fun _ => totalFree.modifyMgenc _) after
    · exact totalRules.binaryPattern parser
  apply patterns.bind fun _ first ran => ?_
  apply (totalRules.expect .equal first).bind fun equal second ranEqual => ?_
  apply finishes_sym
  apply Process.Finishes.ite (fun _ => ?_) fun _ => ?_
  · exact totalRules.bind (totalFree.modifyMgenc _) (fun _ => totalRules.expectLast .primitive)
      second
  · apply (totalRules.expect .newTerm second).bind fun opened after ranTerm => ?_
    apply (contents first second after equal opened ran ranEqual ranTerm).bind fun _ last _ => ?_
    have closes := totalRules.expectLast .endTerm
    apply totalRules.bind totalRules.read fun inner => totalRules.ite ?_ closes
    apply totalRules.bind (totalFree.modifyMgenc _) fun _ => ?_
    apply totalRules.bind (totalFree.modifyMgenc _) fun _ => ?_
    apply totalRules.bind (totalFree.modifyMgenc _) fun _ => ?_
    exact totalRules.bind (totalFree.modifyMgenc _) fun _ => closes

theorem returns_methods (callees : CalleesReturn calls .methods parser) :
    Returns (calls + 1) parser .methods := by
  intro add
  apply finishes_sym
  apply Process.Finishes.ite (fun starts => ?_) fun _ => Process.finishes_pure _ _
  apply finishes_modify
  have body : (method calls).Finishes parser.enterMethod := by
    apply finishes_method
    · exact fun found => callees _ (.methodsPattern parser found)
    · intro first second after equal opened ran ranEqual ranTerm
      exact callees _ (.methodsContents parser first second after calls equal opened starts ran
        ranEqual ranTerm)
  apply body.bind fun _ after ran => ?_
  apply finishes_silent after rfl
  have others : ∀ object, (do
      let invokable ← allocate object
      Process.modify fun parser => { parser with contexts := [] }
      modifyClass (add invokable)
      methods add calls : ParserM Unit).Finishes after := by
    intro object
    obtain ⟨last, final, ranLast⟩ := callees _ (.methodsAgain parser after calls object
      (add (.object after.objects.length)) starts ran) add
    refine ⟨last, final, Process.Runs.bind ⟨[], rfl⟩ (Process.Runs.bind ⟨[], rfl⟩ ?_)⟩
    exact Process.Runs.bind ⟨[], rfl⟩ ranLast
  apply Process.Finishes.ite
  · exact fun _ => others _
  · exact fun _ => others _

/-- A procedure returns if the procedures it calls do. -/
theorem returns_of_callees {procedure : Procedure}
    (callees : CalleesReturn calls procedure parser) : Returns (calls + 1) parser procedure := by
  cases procedure with
  | expression => exact returns_expression callees
  | assignation => exact returns_assignation callees
  | assignments => exact returns_assignments callees
  | evaluation => exact returns_evaluation callees
  | primary => exact returns_primary callees
  | messages => exact returns_messages callees
  | unaryMessages => exact returns_unaryMessages callees
  | binaryMessages => exact returns_binaryMessages callees
  | binaryMessage => exact returns_binaryMessage callees
  | binaryOperand => exact returns_binaryOperand callees
  | keywordMessage => exact returns_keywordMessage callees
  | keywordArguments => exact returns_keywordArguments callees
  | formula => exact returns_formula callees
  | nestedTerm => exact returns_nestedTerm callees
  | nestedBlock => exact returns_nestedBlock callees
  | blockArguments => exact returns_blockArguments callees
  | blockContents => exact returns_blockContents callees
  | locals => exact returns_locals callees
  | blockBody => exact returns_blockBody callees
  | result => exact returns_result callees
  | keywordPatternArguments => exact returns_keywordPatternArguments callees
  | fieldNames => exact returns_fieldNames callees
  | methods => exact returns_methods callees

/-! ### Every call makes progress -/

/-- Where a procedure stands among those it may call without taking a token.
`nestedTerm` and `nestedBlock` take one if they stand before it. -/
def rank : Procedure → List Token → Nat
  | .unaryMessages, _ | .assignments, _ | .locals, _ | .blockArguments, _ => 0
  | .keywordPatternArguments, _ | .fieldNames, _ => 0
  | .primary, _ | .methods, _ => 1
  | .binaryOperand, _ => 2
  | .binaryMessage, _ => 3
  | .binaryMessages, _ => 4
  | .formula, _ => 5
  | .keywordArguments, _ => 6
  | .keywordMessage, _ => 7
  | .messages, _ => 8
  | .evaluation, _ => 9
  | .assignation, _ => 10
  | .expression, _ => 11
  | .blockBody, _ | .result, _ => 12
  | .blockContents, _ => 13
  | .nestedTerm, tokens => if headSym tokens = .newTerm then 0 else 12
  | .nestedBlock, tokens => if headSym tokens = .newBlock then 0 else 14

theorem rank_lt (procedure : Procedure) (tokens : List Token) : rank procedure tokens < 16 := by
  cases procedure <;> simp only [rank] <;> first | omega | (split <;> omega)

section

variable {caller callee : Procedure} {before after : Parser}

theorem progress_of_rank (suffix : after.tokens <:+ before.tokens)
    (less : rank callee after.tokens < rank caller before.tokens) :
    Progresses rank (caller, before.tokens) (callee, after.tokens) := by
  rcases Nat.lt_or_eq_of_le suffix.length_le with shorter | same
  · exact .inl shorter
  · exact .inr ⟨suffix.eq_of_length same, less⟩

/-- The current symbol is another one, so a token was taken. -/
theorem shorter_of_sym_ne (suffix : after.tokens <:+ before.tokens)
    (other : after.current.sym ≠ before.current.sym) :
    after.tokens.length < before.tokens.length := by
  rcases Nat.lt_or_eq_of_le suffix.length_le with shorter | same
  · exact shorter
  · rw [current, current, suffix.eq_of_length same] at other
    exact absurd rfl other

end

theorem consumes_accepted {s : Symbol} {before after : Parser}
    (ran : (accept s).Runs before true after) (real : s ≠ .none) :
    after.tokens.length < before.tokens.length := by
  by_cases found : before.current.sym = s
  · exact consumes_accept found real true after ran
  · obtain ⟨events, ran⟩ := ran
    rw [accept_run, if_neg found] at ran
    cases ran

theorem consumes_keywordPatternArguments (calls : Nat) {parser : Parser}
    (found : parser.current.sym = .keyword) :
    Consumes (keywordPatternArguments calls) parser := by
  cases calls with
  | zero =>
      rintro value after ⟨events, ran⟩
      cases ran
  | succ calls =>
      apply (consumes_keyword found).bind fun kw => ?_
      apply takesRules.bind takesRules.identifier fun _ => ?_
      apply takesRules.bind (takesFree.modifyMgenc _) fun _ => ?_
      apply takesRules.bind takesRules.sym fun _ => takesRules.ite ?_ (takesRules.pure kw)
      exact takesRules.bind (takesRules.keywordPatternArguments calls) fun _ => takesRules.pure _

theorem consumes_pattern (calls : Nat) {parser : Parser}
    (starts : parser.current.sym.startsMessage = true) : Consumes (pattern calls) parser := by
  apply Consumes.of_silent parser.current.sym rfl
  split
  · next found =>
      apply Consumes.bind ?_ fun _ => takesFree.modifyMgenc _
      exact (consumes_identifier found).bind fun s =>
        takesRules.bind (takesRules.symbolFor s) fun _ => takesRules.pure s
  · next found =>
      exact (consumes_keywordPatternArguments calls found).bind fun kw =>
        takesRules.bind (takesRules.symbolFor kw) fun _ => takesFree.modifyMgenc _
  · next noIdentifier noKeyword =>
      have operator : parser.current.sym.isBinaryOperator = true := by
        have noIdentifier' : parser.current.sym ≠ .identifier := noIdentifier
        have noKeyword' : parser.current.sym ≠ .keyword := noKeyword
        simpa [Symbol.startsMessage, noIdentifier', noKeyword'] using starts
      apply (consumes_binarySelector operator).bind fun _ => ?_
      apply takesRules.bind (takesFree.modifyMgenc _) fun _ => ?_
      exact takesRules.bind takesRules.identifier fun _ => takesFree.modifyMgenc _

theorem consumes_method (calls : Nat) {parser : Parser}
    (starts : parser.current.sym.startsMessage = true) : Consumes (method calls) parser := by
  apply (consumes_pattern calls starts).bind fun _ => ?_
  apply takesRules.bind (takesRules.expect .equal) fun _ => ?_
  apply takesRules.bind takesRules.sym fun _ => takesRules.ite ?_ (takesRules.methodBlock calls)
  exact takesRules.bind (takesFree.modifyMgenc _) fun _ => takesRules.expectLast .primitive

theorem consumes_binaryMessage (calls : Nat) (super : Bool) {parser : Parser}
    (found : parser.current.sym.isBinaryOperator = true) :
    Consumes (binaryMessage calls super) parser := by
  cases calls with
  | zero =>
      rintro value after ⟨events, ran⟩
      cases ran
  | succ calls =>
      apply (consumes_binarySelector found).bind fun msg => ?_
      apply takesRules.bind (takesFree.modifyMgenc _) fun _ => ?_
      apply takesRules.bind (takesRules.procedures calls).binaryOperand fun _ => ?_
      exact takesRules.emitMessage super msg

/-- `nestedTerm` takes its bracket, or it is no `nestedTerm` that `primary` calls. -/
theorem progress_of_expect {caller callee : Procedure} {s : Symbol} {before middle after : Parser}
    {accepted : Bool} (ran : (expect s).Runs before accepted middle) (real : s ≠ .none)
    (suffix : after.tokens <:+ middle.tokens)
    (less : headSym before.tokens ≠ s → rank callee after.tokens < rank caller before.tokens) :
    Progresses rank (caller, before.tokens) (callee, after.tokens) := by
  by_cases found : before.current.sym = s
  · have shorter := consumes_expect found real accepted middle ran
    exact .inl (Nat.lt_of_le_of_lt suffix.length_le shorter)
  · exact progress_of_rank (suffix.trans ((takesRules.expect s).suffix ran)) (less found)

/-- A loop that is entered again at the symbol it begins with. -/
theorem shorter_of_again {Value : Type} {s : Symbol} {first : ParserM Value}
    {before middle after : Parser} {value : Value}
    (consumes : before.current.sym = s → Consumes first before) (takes : Takes first)
    (ran : first.Runs before value middle) (suffix : after.tokens <:+ middle.tokens)
    (again : after.current.sym = s) : after.tokens.length < before.tokens.length := by
  by_cases found : before.current.sym = s
  · exact Nat.lt_of_le_of_lt suffix.length_le (consumes found value middle ran)
  · refine shorter_of_sym_ne (suffix.trans (takes.suffix ran)) fun same => found ?_
    rw [← same, again]

/-- Along a call the tokens get fewer, or they stay and the rank goes down. -/
theorem Invokes.progresses {caller callee : Procedure × Parser} (invokes : Invokes caller callee) :
    Progresses rank (caller.1, caller.2.tokens) (callee.1, callee.2.tokens) := by
  cases invokes with
  | expressionAssignation parser assigns => exact progress_of_rank List.suffix_rfl (by simp [rank])
  | expressionEvaluation parser other => exact progress_of_rank List.suffix_rfl (by simp [rank])
  | assignationAssignments parser => exact progress_of_rank List.suffix_rfl (by simp [rank])
  | assignationEvaluation parser after calls targets ran =>
      exact progress_of_rank ((takesRules.assignments calls).suffix ran) (by simp [rank])
  | assignmentsAssignments parser after target found ran again =>
      exact .inl (consumes_assignment found target after ran)
  | evaluationPrimary parser => exact progress_of_rank List.suffix_rfl (by simp [rank])
  | evaluationMessages parser after calls super ran starts =>
      exact progress_of_rank ((takesRules.procedures calls).primary.suffix ran) (by simp [rank])
  | primaryNestedTerm parser found =>
      have here : headSym parser.tokens = .newTerm := found
      exact progress_of_rank List.suffix_rfl (by simp [rank, here])
  | primaryNestedBlock parser found =>
      have here : headSym parser.enterBlock.tokens = .newBlock := found
      exact progress_of_rank List.suffix_rfl (by simp [rank, here])
  | messagesUnary parser found => exact progress_of_rank List.suffix_rfl (by simp [rank])
  | messagesUnaryBinary parser after calls super found ran =>
      exact progress_of_rank ((takesRules.unaryMessages false calls super).suffix ran)
        (by simp [rank])
  | messagesUnaryKeyword parser between after calls super found ran ranBinary again =>
      have early := (takesRules.unaryMessages false calls super).suffix ran
      have late := ((takesRules.procedures calls).binaryMessages false).suffix ranBinary
      exact progress_of_rank (late.trans early) (by simp [rank])
  | messagesBinary parser other found => exact progress_of_rank List.suffix_rfl (by simp [rank])
  | messagesBinaryKeyword parser after calls super other found ran again =>
      exact progress_of_rank (((takesRules.procedures calls).binaryMessages super).suffix ran)
        (by simp [rank])
  | messagesKeyword parser other noOperator =>
      exact progress_of_rank List.suffix_rfl (by simp [rank])
  | unaryMessagesAgain parser after super found ran =>
      exact .inl (consumes_unaryMessage super found () after ran)
  | binaryMessagesMessage parser found => exact progress_of_rank List.suffix_rfl (by simp [rank])
  | binaryMessagesAgain parser after calls super found ran =>
      exact .inl (consumes_binaryMessage calls super found () after ran)
  | binaryMessageOperand parser after msg ran =>
      have suffix := takesRules.binarySelector.suffix ran
      exact progress_of_rank suffix (by simp [rank])
  | binaryOperandPrimary parser => exact progress_of_rank List.suffix_rfl (by simp [rank])
  | binaryOperandUnary parser after calls super ran =>
      exact progress_of_rank ((takesRules.procedures calls).primary.suffix ran) (by simp [rank])
  | keywordMessageArguments parser => exact progress_of_rank List.suffix_rfl (by simp [rank])
  | keywordArgumentsFormula parser after kw ran =>
      exact progress_of_rank (takesRules.keyword.suffix ran) (by simp [rank])
  | keywordArgumentsAgain parser between after calls kw ran ranFormula again =>
      have suffix := (takesRules.procedures calls).formula.suffix ranFormula
      exact .inl (shorter_of_again consumes_keyword takesRules.keyword ran suffix again)
  | formulaOperand parser => exact progress_of_rank List.suffix_rfl (by simp [rank])
  | formulaMessages parser after calls super ran =>
      exact progress_of_rank ((takesRules.procedures calls).binaryOperand.suffix ran)
        (by simp [rank])
  | nestedTermExpression parser after accepted ran =>
      exact progress_of_expect ran (by decide) List.suffix_rfl fun other => by simp [rank, other]
  | nestedBlockArguments parser after accepted ran found =>
      have progress : Progresses rank (.nestedBlock,
          (parser.updateMgenc (·.addArgumentIfAbsent "$block self")).tokens)
          (.blockArguments, after.tokens) :=
        progress_of_expect ran (by decide) List.suffix_rfl fun other => by simp [rank, other]
      exact progress
  | nestedBlockContents parser between after calls accepted signature ran ranPattern =>
      have suffix : after.tokens <:+ between.tokens := by
        split at ranPattern
        · exact (takesRules.blockPattern calls).suffix ranPattern
        · exact ranPattern ▸ List.suffix_rfl
      have progress : Progresses rank (.nestedBlock,
          (parser.updateMgenc (·.addArgumentIfAbsent "$block self")).tokens)
          (.blockContents, after.tokens) :=
        progress_of_expect ran (by decide) suffix fun other => by simp [rank, other]
      exact progress
  | blockArgumentsAgain parser between after accepted name ran ranName again =>
      have suffix := takesRules.identifier.suffix ranName
      exact .inl (shorter_of_again (consumes_expect · (by decide)) (takesRules.expect .colon) ran
        suffix again)
  | blockContentsLocals parser after ran =>
      exact progress_of_rank ((takesRules.accept .or).suffix ran) (by simp [rank])
  | blockContentsBodyLocals parser first second after calls accepted ran ranLocals ranOr =>
      have early := (takesRules.accept .or).suffix ran
      have names := (takesRules.locals calls).suffix ranLocals
      have late := (takesRules.expect .or).suffix ranOr
      exact progress_of_rank (late.trans (names.trans early)) (by simp [rank])
  | blockContentsBody parser after ran =>
      exact progress_of_rank ((takesRules.accept .or).suffix ran) (by simp [rank])
  | localsAgain parser after name found ran => exact .inl (consumes_identifier found name after ran)
  | blockBodyResult parser after ran => exact .inl (consumes_accepted ran (by decide))
  | blockBodyExpression parser after ran =>
      exact progress_of_rank ((takesRules.accept .exit).suffix ran) (by simp [rank])
  | blockBodyAgain parser first second after calls ran ranExpression ranPeriod =>
      have early := (takesRules.accept .exit).suffix ran
      have statement := (takesRules.procedures calls).expression.suffix ranExpression
      have shorter := consumes_accepted ranPeriod (by decide)
      exact .inl (Nat.lt_of_lt_of_le shorter (statement.trans early).length_le)
  | resultExpression parser => exact progress_of_rank List.suffix_rfl (by simp [rank])
  | keywordPatternAgain parser between after kw name ran ranName again =>
      have suffix := takesRules.identifier.suffix ranName
      exact .inl (shorter_of_again consumes_keyword takesRules.keyword ran suffix again)
  | fieldNamesAgain parser after name change found ran =>
      exact .inl (consumes_identifier found name after ran)
  | methodsPattern parser found => exact progress_of_rank List.suffix_rfl (by simp [rank])
  | methodsContents parser first second after calls equal opened found ran ranEqual ranTerm =>
      have early := (takesRules.expect .equal).suffix ranEqual
      have late := (takesRules.expect .newTerm).suffix ranTerm
      have starts : parser.enterMethod.current.sym.startsMessage = true := found
      have shorter := consumes_pattern calls starts () first ran
      exact .inl (Nat.lt_of_le_of_lt (late.trans early).length_le shorter)
  | methodsAgain parser after calls object change found ran =>
      have starts : parser.enterMethod.current.sym.startsMessage = true := found
      exact .inl (consumes_method calls starts () after ran)

/-! ### Whole token streams -/

/-- Every procedure returns within a number of nested calls that is linear in the
number of tokens that are left. -/
theorem returns_of_length {calls : Nat} (procedure : Procedure) (parser : Parser)
    (enough : 16 * (parser.tokens.length + 1) ≤ calls) : Returns calls parser procedure := by
  have decreases : ∀ {caller callee : Procedure × Parser}, Invokes caller callee →
      callDepth 16 rank (callee.1, callee.2.tokens) <
        callDepth 16 rank (caller.1, caller.2.tokens) :=
    fun invokes => callDepth_lt rank_lt invokes.progresses
  have adequate : ∀ {calls : Nat} {caller : Procedure × Parser},
      (∀ callee, Invokes caller callee → Returns calls callee.2 callee.1) →
        Returns (calls + 1) caller.2 caller.1 := fun callees => returns_of_callees callees
  have deep : callDepth 16 rank (procedure, parser.tokens) < calls := by
    have below := rank_lt procedure parser.tokens
    unfold callDepth
    simp only
    omega
  exact returns_of_measure (fun calls (call : Procedure × Parser) => Returns calls call.2 call.1)
    (fun call => callDepth 16 rank (call.1, call.2.tokens)) decreases adequate
    (procedure, parser) deep

/-- The computation returns from every state with at most `length` tokens. -/
def ReturnsWithin (length : Nat) {Value : Type} (process : ParserM Value) : Prop :=
  Takes process ∧ ∀ parser, parser.tokens.length ≤ length → process.Finishes parser

theorem withinFree (length : Nat) : FreeRules fun _ => ReturnsWithin length where
  pure value := ⟨takesRules.pure value, fun _ _ => totalRules.pure value _⟩
  bind first rest := by
    refine ⟨takesRules.bind first.1 fun value => (rest value).1, fun parser few => ?_⟩
    apply (first.2 parser few).bind fun value after ran => ?_
    exact (rest value).2 after (Nat.le_trans (first.1.suffix ran).length_le few)
  sym := ⟨takesRules.sym, fun _ _ => totalRules.sym _⟩
  text := ⟨takesRules.text, fun _ _ => totalRules.text _⟩
  peek := ⟨takesRules.peek, fun _ _ => totalRules.peek _⟩
  read := ⟨takesRules.read, fun _ _ => totalRules.read _⟩
  getSym := ⟨takesRules.getSym, fun _ _ => totalRules.getSym _⟩
  report error := ⟨takesRules.report error, fun _ _ => totalRules.report error _⟩
  contexts change := ⟨takesFree.contexts change, fun _ _ => totalFree.contexts change _⟩
  allocate object := ⟨takesFree.allocate object, fun _ _ => totalFree.allocate object _⟩
  classContext change keeps :=
    ⟨takesFree.classContext change keeps, fun _ _ => totalFree.classContext change keeps _⟩

theorem finishes_parse (tokens : List Token) :
    (classdef (16 * (tokens.length + 1))).Finishes { tokens := tokens } := by
  have rules := (withinFree tokens.length).stepRules
  have enough : ∀ parser : Parser, parser.tokens.length ≤ tokens.length →
      16 * (parser.tokens.length + 1) ≤ 16 * (tokens.length + 1) := fun _ few =>
    Nat.mul_le_mul_left 16 (Nat.succ_le_succ few)
  have behind := holds_behindName rules
    (fun add keepsMethods => ⟨takesRules.fieldNames keepsMethods _, fun parser few =>
      returns_of_length .fieldNames parser (enough parser few) add⟩)
    (fun add adds => ⟨takesRules.methods adds _, fun parser few =>
      returns_of_length .methods parser (enough parser few) add⟩)
  rw [classdef_eq]
  apply finishes_silent _ rfl
  apply finishes_silent _ rfl
  apply finishes_modify
  exact behind.2 _ (Nat.le_refl _)

/-- The parser terminates on a token stream: `Classdef` returns; a procedure
returns as soon as the calls it makes do; and whatever it has read so far, a
procedure that leads back to itself has taken a token. -/
structure Terminates (tokens : List Token) : Prop where
  returns : ∃ parser errors, parse tokens = ⟨.ok (), parser, errors⟩
  calls : ∀ (calls : Nat) (procedure : Procedure) (parser : Parser),
    CalleesReturn calls procedure parser → Returns (calls + 1) parser procedure
  consumes : ∀ (procedure : Procedure) (before after : Parser),
    Relation.TransGen Invokes (procedure, before) (procedure, after) →
      after.tokens.length < before.tokens.length

theorem parser_terminates (tokens : List Token) : Terminates tokens where
  returns := by
    obtain ⟨⟨⟩, parser, errors, ran⟩ := finishes_parse tokens
    exact ⟨parser, errors, ran⟩
  calls _ _ _ callees := returns_of_callees callees
  consumes procedure before after cycle := by
    have inTokens : Relation.TransGen (Progresses rank) (procedure, before.tokens)
        (procedure, after.tokens) :=
      cycle.lift (fun call => (call.1, call.2.tokens)) fun _ _ => Invokes.progresses
    exact cycle_consumes inTokens

end Somr.Compiler.Parser
