import Somr.Compiler.Parser
import Somr.Foundation.Programs

/-!
Owns the rule that carries a property of computations from the steps of the
parser to all its procedures, on tokens of any kind.

`StepRules` names the steps: taking a token, reporting an error, changing the
contexts but for the objects their literals refer to, giving a new object to the
literals or to the class, changing the class context but for its name and methods,
and sequences of these. What also holds of a computation that runs out of calls
holds of every procedure that loops or recurses.

`FreeRules` are for properties that do not depend on what the contexts hold.
-/

namespace Somr.Compiler.Parser

open Somr.Foundation

/-! ### References -/

/-- The objects that literals refer to. -/
def references (literals : List Literal) : List Nat :=
  literals.filterMap fun literal =>
    match literal with
    | .symbol _ => none
    | .object address => some address

/-- The objects that the literals of some contexts refer to. -/
def contextReferences (contexts : List MethodGenerationContext) : List Nat :=
  contexts.flatMap fun mgenc => references mgenc.literals

/-- The literals of a compiled object. -/
def objectLiterals : CompiledObject → List Literal
  | .method method => method.literals
  | _ => []

/-- The change of a context refers to no other objects. -/
def KeepsReferences (change : MethodGenerationContext → MethodGenerationContext) : Prop :=
  ∀ mgenc, references (change mgenc).literals = references mgenc.literals

theorem references_append (early late : List Literal) :
    references (early ++ late) = references early ++ references late :=
  List.filterMap_append

theorem keepsReferences_symbol (text : String) :
    KeepsReferences (·.addLiteralIfAbsent (.symbol text)) := by
  intro mgenc
  unfold MethodGenerationContext.addLiteralIfAbsent
  dsimp only
  split
  · rfl
  · exact (references_append _ _).trans (List.append_nil _)

theorem keepsReferences_argument (name : String) :
    KeepsReferences (·.addArgumentIfAbsent name) := by
  intro mgenc
  unfold MethodGenerationContext.addArgumentIfAbsent
  dsimp only
  split <;> rfl

theorem keepsReferences_local (name : String) : KeepsReferences (·.addLocalIfAbsent name) := by
  intro mgenc
  unfold MethodGenerationContext.addLocalIfAbsent
  dsimp only
  split <;> rfl

/-- The change leaves the name and the methods of a class alone. -/
def KeepsMethods (change : ClassGenerationContext → ClassGenerationContext) : Prop :=
  ∀ cgenc, (change cgenc).name = cgenc.name ∧
    (change cgenc).instanceMethods = cgenc.instanceMethods ∧
    (change cgenc).classMethods = cgenc.classMethods

/-- The methods of both sides of a class. -/
def methodLiterals (cgenc : ClassGenerationContext) : List Literal :=
  cgenc.instanceMethods ++ cgenc.classMethods

/-- The method is added to one of the sides. -/
def AddsMethod (add : Literal → ClassGenerationContext → ClassGenerationContext) : Prop :=
  ∀ invokable cgenc, (add invokable cgenc).name = cgenc.name ∧
    (methodLiterals (add invokable cgenc)).Perm (invokable :: methodLiterals cgenc)

theorem addsMethod_instance : AddsMethod fun invokable cgenc =>
    { cgenc with instanceMethods := cgenc.instanceMethods ++ [invokable] } := by
  refine fun invokable cgenc => ⟨rfl, ?_⟩
  rw [methodLiterals, List.append_assoc]
  exact List.perm_middle

theorem addsMethod_class : AddsMethod fun invokable cgenc =>
    { cgenc with classMethods := cgenc.classMethods ++ [invokable] } := by
  refine fun invokable cgenc => ⟨rfl, ?_⟩
  rw [methodLiterals, ← List.append_assoc]
  exact List.perm_append_singleton _ _

/-- Assemble the method that was parsed and add it to the class. -/
def finishMethod {Value : Type} (add : Literal → ClassGenerationContext → ClassGenerationContext)
    (rest : ParserM Value) : ParserM Value := do
  let parser ← Process.read
  let adds (invokable : Literal) : ParserM Value := do
    Process.modify fun parser => { parser with contexts := [] }
    modifyClass (add invokable)
    rest
  if parser.mgenc.primitive then assemblePrimitive parser.mgenc >>= adds
  else assemble parser.mgenc >>= adds

/-- Leave the context of a block and put its method into the literals around. -/
def finishBlock {Value : Type} (rest : Literal → ParserM Value) : ParserM Value := do
  let parser ← Process.read
  Process.modify fun parser => { parser with contexts := parser.contexts.tail }
  let blockMethod ← assemble parser.mgenc
  modifyMgenc (·.addLiteral blockMethod)
  rest blockMethod

/-- Allocate a constant and put it into the literals. -/
def finishConstant {Value : Type} (object : CompiledObject) (rest : Literal → ParserM Value) :
    ParserM Value := do
  let lit ← allocate object
  modifyMgenc (·.addLiteralIfAbsent lit)
  rest lit

/-! ### Steps -/

/-- The property holds of every step and is kept by sequencing. -/
structure StepRules (Holds : (Value : Type) → ParserM Value → Prop) : Prop where
  pure : ∀ {Value : Type} (value : Value), Holds _ (Pure.pure value)
  bind : ∀ {Value Next : Type} {first : ParserM Next} {rest : Next → ParserM Value},
    Holds _ first → (∀ value, Holds _ (rest value)) → Holds _ (first >>= rest)
  sym : Holds _ sym
  text : Holds _ text
  peek : Holds _ peek
  read : Holds _ Process.read
  getSym : Holds _ getSym
  report : ∀ error : Parser → SyntaxError, Holds _ (Process.emit error : ParserM Unit)
  contexts : ∀ change : Parser → List MethodGenerationContext,
    (∀ parser, (contextReferences (change parser)).Sublist (contextReferences parser.contexts)) →
    Holds _ (Process.modify fun parser => { parser with contexts := change parser } :
      ParserM Unit)
  ofConstant : ∀ {Value : Type} (object : CompiledObject) (rest : Literal → ParserM Value),
    objectLiterals object = [] → (∀ lit, Holds _ (rest lit)) → Holds _ (finishConstant object rest)
  ofBlock : ∀ {Value : Type} (rest : Literal → ParserM Value), (∀ lit, Holds _ (rest lit)) →
    Holds _ (finishBlock rest)
  ofMethod : ∀ {Value : Type} {add : Literal → ClassGenerationContext → ClassGenerationContext}
    (rest : ParserM Value), AddsMethod add → Holds _ rest → Holds _ (finishMethod add rest)
  classContext : ∀ change, KeepsMethods change → Holds _ (modifyClass change)

/-- The property holds of any change of the contexts and of the class but for its
name, and of any allocation. -/
structure FreeRules (Holds : (Value : Type) → ParserM Value → Prop) : Prop where
  pure : ∀ {Value : Type} (value : Value), Holds _ (Pure.pure value)
  bind : ∀ {Value Next : Type} {first : ParserM Next} {rest : Next → ParserM Value},
    Holds _ first → (∀ value, Holds _ (rest value)) → Holds _ (first >>= rest)
  sym : Holds _ sym
  text : Holds _ text
  peek : Holds _ peek
  read : Holds _ Process.read
  getSym : Holds _ getSym
  report : ∀ error : Parser → SyntaxError, Holds _ (Process.emit error : ParserM Unit)
  contexts : ∀ change : Parser → List MethodGenerationContext, Holds _
    (Process.modify fun parser => { parser with contexts := change parser } : ParserM Unit)
  allocate : ∀ object, Holds _ (allocate object)
  classContext : ∀ change : ClassGenerationContext → ClassGenerationContext,
    (∀ cgenc, (change cgenc).name = cgenc.name) → Holds _ (modifyClass change)

variable {Holds : (Value : Type) → ParserM Value → Prop}

namespace FreeRules

variable (rules : FreeRules Holds)

include rules

theorem modifyMgenc (change : MethodGenerationContext → MethodGenerationContext) :
    Holds _ (modifyMgenc change) :=
  rules.contexts fun parser => change parser.mgenc :: parser.contexts.tail

theorem stepRules : StepRules Holds where
  pure := rules.pure
  bind := rules.bind
  sym := rules.sym
  text := rules.text
  peek := rules.peek
  read := rules.read
  getSym := rules.getSym
  report := rules.report
  contexts change _ := rules.contexts change
  ofConstant object rest _ holds := rules.bind (rules.allocate object) fun lit =>
    rules.bind (rules.modifyMgenc _) fun _ => holds lit
  ofBlock rest holds := by
    apply rules.bind rules.read fun parser => ?_
    apply rules.bind (rules.contexts fun parser => parser.contexts.tail) fun _ => ?_
    apply rules.bind (rules.allocate _) fun blockMethod => ?_
    exact rules.bind (rules.modifyMgenc _) fun _ => holds blockMethod
  ofMethod := by
    intro Value add rest adds holds
    have last : ∀ invokable, Holds _ (do
        Process.modify fun parser => { parser with contexts := [] }
        modifyClass (add invokable)
        rest) := fun invokable =>
      rules.bind (rules.contexts fun _ => []) fun _ =>
        rules.bind (rules.classContext _ fun cgenc => (adds invokable cgenc).1) fun _ => holds
    apply rules.bind rules.read fun parser => ?_
    split
    · exact rules.bind (rules.allocate _) last
    · exact rules.bind (rules.allocate _) last
  classContext change keeps := rules.classContext change fun cgenc => (keeps cgenc).1

end FreeRules

namespace StepRules

theorem ite (_rules : StepRules Holds) {Value : Type} {condition : Prop} [Decidable condition]
    {yes no : ParserM Value} (holds : Holds _ yes) (fails : Holds _ no) :
    Holds _ (if condition then yes else no) := by
  split
  · exact holds
  · exact fails

variable (rules : StepRules Holds)

include rules

theorem forM {Value : Type} (list : List Value) (each : Value → ParserM Unit)
    (holds : ∀ value, Holds _ (each value)) : Holds _ (list.forM each) := by
  induction list with
  | nil => exact rules.pure ()
  | cons value others hypothesis => exact rules.bind (holds value) fun _ => hypothesis

theorem symbolFor (name : String) : Holds _ (symbolFor name) := rules.pure _

theorem modifyMgenc (change : MethodGenerationContext → MethodGenerationContext)
    (keeps : KeepsReferences change := by exact fun _ => rfl) : Holds _ (modifyMgenc change) := by
  refine rules.contexts (fun parser => change parser.mgenc :: parser.contexts.tail) fun parser => ?_
  cases isContexts : parser.contexts with
  | nil =>
      rw [contextReferences, List.flatMap_cons, Parser.mgenc, isContexts, keeps]
      exact List.Sublist.refl _
  | cons mgenc outer =>
      rw [contextReferences, List.flatMap_cons, Parser.mgenc, isContexts, keeps]
      exact List.Sublist.refl _

omit rules in
/-- What follows the symbol of a name. -/
theorem symbolThen {Value : Type} {rest : Literal → ParserM Value} (name : String)
    (holds : Holds _ (rest (.symbol name))) : Holds _ (Parser.symbolFor name >>= rest) := by
  rw [show Parser.symbolFor name >>= rest = rest (.symbol name) from Process.pure_bind _ _]
  exact holds

theorem addSymbol (text : String) :
    Holds _ (Parser.modifyMgenc (·.addLiteralIfAbsent (.symbol text))) :=
  rules.modifyMgenc _ (keepsReferences_symbol text)

theorem addArgument (name : String) :
    Holds _ (Parser.modifyMgenc (·.addArgumentIfAbsent name)) :=
  rules.modifyMgenc _ (keepsReferences_argument name)

/-! ### Tokens -/

theorem accept (s : Symbol) : Holds _ (accept s) := by
  apply rules.bind rules.sym fun found => ?_
  exact rules.ite (rules.bind rules.getSym fun _ => rules.pure true) (rules.pure false)

theorem acceptOneOf (ss : List Symbol) : Holds _ (acceptOneOf ss) := by
  apply rules.bind rules.sym fun found => ?_
  exact rules.ite (rules.bind rules.getSym fun _ => rules.pure true) (rules.pure false)

theorem expect (s : Symbol) : Holds _ (expect s) := by
  apply rules.bind (rules.accept s) fun found => ?_
  exact rules.ite (rules.pure true) (rules.bind (rules.report _) fun _ => rules.pure false)

theorem expectOneOf (ss : List Symbol) : Holds _ (expectOneOf ss) := by
  apply rules.bind (rules.acceptOneOf ss) fun found => ?_
  exact rules.ite (rules.pure true) (rules.bind (rules.report _) fun _ => rules.pure false)

theorem expectLast (s : Symbol) : Holds _ (do let _ ← Parser.expect s : ParserM Unit) :=
  rules.bind (rules.expect s) fun _ => rules.pure ()

/-! ### Variables, identifiers and selectors -/

theorem genPushVariable (var : String) : Holds _ (genPushVariable var) := by
  apply rules.bind rules.read fun parser => ?_
  cases findVar var parser.scopes 0 with
  | some slot => exact rules.ite (rules.modifyMgenc _) (rules.modifyMgenc _)
  | none =>
      apply StepRules.symbolThen var
      exact rules.ite (rules.bind (rules.addSymbol var) fun _ => rules.modifyMgenc _)
        (rules.bind (rules.addSymbol var) fun _ => rules.modifyMgenc _)

theorem genPopVariable (var : String) : Holds _ (genPopVariable var) := by
  apply rules.bind rules.read fun parser => ?_
  cases findVar var parser.scopes 0 with
  | some slot => exact rules.ite (rules.modifyMgenc _) (rules.modifyMgenc _)
  | none => exact rules.bind (rules.symbolFor var) fun name => rules.modifyMgenc _

theorem identifier : Holds _ identifier := by
  apply rules.bind rules.text fun s => ?_
  apply rules.bind (rules.accept .primitive) fun found => ?_
  exact rules.ite (rules.pure s) (rules.bind (rules.expect .identifier) fun _ => rules.pure s)

theorem keyword : Holds _ keyword :=
  rules.bind rules.text fun s => rules.bind (rules.expect .keyword) fun _ => rules.pure s

theorem unarySelector : Holds _ unarySelector :=
  rules.bind rules.identifier fun s => rules.bind (rules.symbolFor s) fun _ => rules.pure s

theorem binarySelector : Holds _ binarySelector := by
  apply rules.bind rules.text fun s => ?_
  have ends : Holds _ (do let _ ← Parser.symbolFor s; return s : ParserM String) :=
    rules.bind (rules.symbolFor s) fun _ => rules.pure s
  have last : Holds _ (do let _ ← Parser.expect .none; let _ ← Parser.symbolFor s; return s :
      ParserM String) := rules.bind (rules.expect .none) fun _ => ends
  apply rules.bind (rules.accept .or) fun _ => rules.ite ends ?_
  apply rules.bind (rules.accept .comma) fun _ => rules.ite ends ?_
  apply rules.bind (rules.accept .minus) fun _ => rules.ite ends ?_
  apply rules.bind (rules.accept .equal) fun _ => rules.ite ends ?_
  apply rules.bind (rules.acceptOneOf singleOpSyms) fun _ => rules.ite ends ?_
  exact rules.bind (rules.accept .operatorSequence) fun _ => rules.ite ends last

theorem keywordSelector : Holds _ keywordSelector :=
  rules.bind rules.text fun s => rules.bind (rules.expectOneOf keywordSelectorSyms) fun _ =>
    rules.bind (rules.symbolFor s) fun _ => rules.pure s

theorem selector : Holds _ selector :=
  rules.bind rules.sym fun _ =>
    rules.ite rules.binarySelector (rules.ite rules.keywordSelector rules.unarySelector)

/-! ### Literals -/

theorem literalInteger : Holds _ literalInteger :=
  rules.bind rules.text fun _ => rules.bind (rules.expect .integer) fun _ => rules.pure _

theorem literalNumber : Holds _ literalNumber := by
  have ends : ∀ val : Int, Holds _ (do
      let lit ← Parser.allocate (.integer val)
      Parser.modifyMgenc (·.addLiteralIfAbsent lit)
      Parser.modifyMgenc (BytecodeGenerator.emitPUSHCONSTANT · lit) : ParserM Unit) := fun val =>
    rules.ofConstant (.integer val) _ rfl fun lit => rules.modifyMgenc _
  apply rules.bind rules.sym fun found => ?_
  apply rules.ite
  · apply rules.bind ?_ ends
    apply rules.bind (rules.expect .minus) fun _ => ?_
    exact rules.bind rules.literalInteger fun _ => rules.pure _
  · exact rules.bind (rules.bind rules.literalInteger fun i => rules.pure (asInt32 i)) ends

theorem string : Holds _ string :=
  rules.bind rules.text fun s => rules.bind (rules.expect .stString) fun _ => rules.pure s

theorem literalSymbol : Holds _ literalSymbol := by
  have ends : ∀ name : String, Holds _ (do
      let symb ← Parser.symbolFor name
      Parser.modifyMgenc (·.addLiteralIfAbsent symb)
      Parser.modifyMgenc (BytecodeGenerator.emitPUSHCONSTANT · symb) : ParserM Unit) := fun name =>
    StepRules.symbolThen name (rules.bind (rules.addSymbol name) fun _ => rules.modifyMgenc _)
  apply rules.bind (rules.expect .pound) fun _ => ?_
  apply rules.bind rules.sym fun found => ?_
  exact rules.ite (rules.bind rules.string ends) (rules.bind rules.selector ends)

theorem literalString : Holds _ literalString :=
  rules.bind rules.string fun s =>
    rules.ofConstant (.string s) _ rfl fun lit => rules.modifyMgenc _

theorem literal : Holds _ literal := by
  apply rules.bind rules.sym fun found => ?_
  split
  · exact rules.literalSymbol
  · exact rules.literalString
  · exact rules.literalNumber

theorem emitMessage (super : Bool) (msg : String) : Holds _ (emitMessage super msg) := by
  cases super <;> exact rules.modifyMgenc _

theorem unaryMessage (super : Bool) : Holds _ (unaryMessage super) :=
  rules.bind rules.unarySelector fun msg => rules.bind (rules.addSymbol msg) fun _ =>
    rules.emitMessage super msg

theorem assignment : Holds _ assignment :=
  rules.bind rules.identifier fun v => StepRules.symbolThen v <|
    rules.bind (rules.addSymbol v) fun _ => rules.bind (rules.expect .assign) fun _ =>
      rules.pure v

theorem fieldsOf {add : String → ClassGenerationContext → ClassGenerationContext} {calls : Nat}
    (names : Holds _ (fieldNames add calls)) : Holds _ (fields add calls) := by
  apply rules.bind (rules.accept .or) fun _ => rules.ite ?_ (rules.pure ())
  exact rules.bind names fun _ => rules.expectLast .or

theorem binaryPattern : Holds _ binaryPattern :=
  rules.bind rules.binarySelector fun _ => rules.bind (rules.modifyMgenc _) fun _ =>
    rules.bind rules.identifier fun name => rules.addArgument name

end StepRules

/-! ### Loops without nesting -/

/-- The property also holds of a computation that runs out of calls. -/
structure LoopRules (Holds : (Value : Type) → ParserM Value → Prop) : Prop
    extends StepRules Holds where
  stop : ∀ {Value : Type}, Holds Value (Process.stop .overrun)

namespace LoopRules

variable (rules : LoopRules Holds)

include rules

theorem unaryMessages (keepSuper : Bool) :
    ∀ calls super, Holds _ (unaryMessages keepSuper calls super)
  | 0, _ => rules.stop
  | calls + 1, super => by
      apply rules.bind rules.sym fun _ => rules.ite ?_ (rules.pure ())
      exact rules.bind (rules.unaryMessage super) fun _ => unaryMessages keepSuper calls _

theorem assignments : ∀ calls, Holds _ (assignments calls)
  | 0 => rules.stop
  | calls + 1 => by
      apply rules.bind rules.sym fun _ => rules.ite ?_ (rules.pure [])
      apply rules.bind rules.assignment fun v => ?_
      apply rules.bind rules.peek fun _ => rules.ite ?_ (rules.pure [v])
      exact rules.bind (assignments calls) fun _ => rules.pure _

theorem locals : ∀ calls, Holds _ (locals calls)
  | 0 => rules.stop
  | calls + 1 => by
      apply rules.bind rules.sym fun _ => rules.ite ?_ (rules.pure ())
      apply rules.bind rules.identifier fun name => ?_
      exact rules.bind (rules.modifyMgenc _ (keepsReferences_local name)) fun _ => locals calls

theorem blockArguments : ∀ calls, Holds _ (blockArguments calls)
  | 0 => rules.stop
  | calls + 1 => by
      apply rules.bind (rules.expect .colon) fun _ => ?_
      apply rules.bind rules.identifier fun name => ?_
      apply rules.bind (rules.addArgument name) fun _ => ?_
      exact rules.bind rules.sym fun _ => rules.ite (blockArguments calls) (rules.pure ())

theorem blockPattern (calls : Nat) : Holds _ (blockPattern calls) :=
  rules.bind (rules.blockArguments calls) fun _ => rules.expectLast .or

theorem keywordPatternArguments : ∀ calls, Holds _ (keywordPatternArguments calls)
  | 0 => rules.stop
  | calls + 1 => by
      apply rules.bind rules.keyword fun kw => ?_
      apply rules.bind rules.identifier fun name => ?_
      apply rules.bind (rules.addArgument name) fun _ => ?_
      apply rules.bind rules.sym fun _ => rules.ite ?_ (rules.pure kw)
      exact rules.bind (keywordPatternArguments calls) fun _ => rules.pure _

end LoopRules

/-! ### Nested procedures -/

/-- The property holds of the nested procedures with `calls` calls. -/
structure ProcedureRules (Holds : (Value : Type) → ParserM Value → Prop) (calls : Nat) :
    Prop where
  expression : Holds _ (expression calls)
  assignation : Holds _ (assignation calls)
  evaluation : Holds _ (evaluation calls)
  primary : Holds _ (primary calls)
  messages : ∀ super, Holds _ (messages calls super)
  binaryMessages : ∀ super, Holds _ (binaryMessages calls super)
  binaryMessage : ∀ super, Holds _ (binaryMessage calls super)
  binaryOperand : Holds _ (binaryOperand calls)
  keywordMessage : ∀ super, Holds _ (keywordMessage calls super)
  keywordArguments : Holds _ (keywordArguments calls)
  formula : Holds _ (formula calls)
  nestedTerm : Holds _ (nestedTerm calls)
  nestedBlock : Holds _ (nestedBlock calls)
  blockContents : Holds _ (blockContents calls)
  blockBody : ∀ seenPeriod, Holds _ (blockBody calls seenPeriod)
  result : Holds _ (result calls)

theorem procedureRules_zero (rules : LoopRules Holds) : ProcedureRules Holds 0 where
  expression := rules.stop
  assignation := rules.stop
  evaluation := rules.stop
  primary := rules.stop
  messages _ := rules.stop
  binaryMessages _ := rules.stop
  binaryMessage _ := rules.stop
  binaryOperand := rules.stop
  keywordMessage _ := rules.stop
  keywordArguments := rules.stop
  formula := rules.stop
  nestedTerm := rules.stop
  nestedBlock := rules.stop
  blockContents := rules.stop
  blockBody _ := rules.stop
  result := rules.stop

namespace ProcedureRules

variable {calls : Nat} (rules : LoopRules Holds) (callees : ProcedureRules Holds calls)

include rules callees

theorem assignation_succ : Holds _ (Parser.assignation (calls + 1)) := by
  apply rules.bind (rules.assignments calls) fun l => ?_
  apply rules.bind callees.evaluation fun _ => ?_
  apply rules.bind (rules.forM l _ fun _ => rules.modifyMgenc _) fun _ => ?_
  exact rules.forM l _ rules.genPopVariable

theorem primary_succ : Holds _ (Parser.primary (calls + 1)) := by
  apply rules.bind rules.sym fun found => ?_
  split
  · apply rules.bind rules.identifier fun v => ?_
    exact rules.ite (rules.bind (rules.genPushVariable "self") fun _ => rules.pure true)
      (rules.bind (rules.genPushVariable v) fun _ => rules.pure false)
  · exact rules.bind callees.nestedTerm fun _ => rules.pure false
  · have enters := rules.contexts (fun parser => { blockMethod := true } :: parser.contexts)
      fun _ => List.Sublist.refl _
    apply rules.bind enters fun _ => ?_
    apply rules.bind callees.nestedBlock fun _ => ?_
    exact rules.ofBlock _ fun blockMethod =>
      rules.bind (rules.modifyMgenc _) fun _ => rules.pure false
  · exact rules.bind rules.literal fun _ => rules.pure false

theorem messages_succ (super : Bool) : Holds _ (Parser.messages (calls + 1) super) := by
  have keywords : Holds _ (do
      if (← Parser.sym) = .keyword then Parser.keywordMessage calls false : ParserM Unit) :=
    rules.bind rules.sym fun _ => rules.ite (callees.keywordMessage false) (rules.pure ())
  apply rules.bind rules.sym fun found => rules.ite ?_ ?_
  · apply rules.bind (rules.unaryMessages false calls super) fun _ => ?_
    exact rules.bind (callees.binaryMessages false) fun _ => keywords
  · apply rules.bind rules.sym fun found => rules.ite ?_ (callees.keywordMessage super)
    exact rules.bind (callees.binaryMessages super) fun _ => keywords

theorem blockBody_succ (seenPeriod : Bool) :
    Holds _ (Parser.blockBody (calls + 1) seenPeriod) := by
  have finishes : Holds _ (do
      Parser.modifyMgenc BytecodeGenerator.emitRETURNLOCAL
      Parser.modifyMgenc fun mgenc => { mgenc with finished := true } : ParserM Unit) :=
    rules.bind (rules.modifyMgenc _) fun _ => rules.modifyMgenc _
  apply rules.bind (rules.accept .exit) fun found => rules.ite callees.result ?_
  apply rules.bind rules.sym fun _ => rules.ite ?_ ?_
  · exact rules.ite (rules.bind (rules.modifyMgenc _) fun _ => finishes) finishes
  · apply rules.bind rules.sym fun _ => ?_
    apply rules.ite (rules.bind (rules.modifyMgenc _) fun _ => finishes)
    apply rules.bind callees.expression fun _ => ?_
    apply rules.bind (rules.accept .period) fun _ => rules.ite ?_ (rules.pure ())
    exact rules.bind (rules.modifyMgenc _) fun _ => callees.blockBody true

theorem nestedBlock_succ : Holds _ (Parser.nestedBlock (calls + 1)) := by
  have contents : Holds _ (do
      let parser ← Process.read
      let signature := blockSignature parser.mgenc.arguments.length
      let _ ← Parser.symbolFor signature
      setSignature signature
      Parser.blockContents calls
      let parser ← Process.read
      if !parser.mgenc.finished then
        Parser.modifyMgenc BytecodeGenerator.emitRETURNLOCAL
        Parser.modifyMgenc fun mgenc => { mgenc with finished := true }
      let _ ← Parser.expect .endBlock : ParserM Unit) := by
    have closes := rules.expectLast .endBlock
    apply rules.bind rules.read fun parser => ?_
    apply rules.bind (rules.symbolFor _) fun _ => ?_
    apply rules.bind (rules.modifyMgenc _) fun _ => ?_
    apply rules.bind callees.blockContents fun _ => ?_
    apply rules.bind rules.read fun parser => ?_
    apply rules.ite ?_ closes
    exact rules.bind (rules.modifyMgenc _) fun _ => rules.bind (rules.modifyMgenc _) fun _ => closes
  apply rules.bind (rules.addArgument "$block self") fun _ => ?_
  apply rules.bind (rules.expect .newBlock) fun _ => ?_
  apply rules.bind rules.sym fun _ => rules.ite ?_ contents
  exact rules.bind (rules.blockPattern calls) fun _ => contents

theorem blockContents_succ : Holds _ (Parser.blockContents (calls + 1)) := by
  apply rules.bind (rules.accept .or) fun _ => rules.ite ?_ (callees.blockBody false)
  apply rules.bind (rules.locals calls) fun _ => ?_
  exact rules.bind (rules.expect .or) fun _ => callees.blockBody false

theorem keywordArguments_succ : Holds _ (Parser.keywordArguments (calls + 1)) := by
  apply rules.bind rules.keyword fun kw => ?_
  apply rules.bind callees.formula fun _ => ?_
  apply rules.bind rules.sym fun _ => rules.ite ?_ (rules.pure kw)
  exact rules.bind callees.keywordArguments fun _ => rules.pure _

theorem result_succ : Holds _ (Parser.result (calls + 1)) := by
  have returns : KeepsReferences fun mgenc =>
      if mgenc.blockMethod then BytecodeGenerator.emitRETURNNONLOCAL mgenc
      else BytecodeGenerator.emitRETURNLOCAL mgenc := by
    intro mgenc
    dsimp only
    split <;> rfl
  apply rules.bind callees.expression fun _ => ?_
  apply rules.bind (rules.modifyMgenc _ returns) fun _ => ?_
  apply rules.bind (rules.modifyMgenc _) fun _ => ?_
  exact rules.bind (rules.accept .period) fun _ => rules.pure ()

theorem succ : ProcedureRules Holds (calls + 1) where
  expression := rules.bind rules.peek fun _ => rules.ite callees.assignation callees.evaluation
  assignation := callees.assignation_succ rules
  evaluation := rules.bind callees.primary fun super => rules.bind rules.sym fun _ =>
    rules.ite (callees.messages super) (rules.pure ())
  primary := callees.primary_succ rules
  messages := callees.messages_succ rules
  binaryMessages super := rules.bind rules.sym fun _ =>
    rules.ite (rules.bind (callees.binaryMessage super) fun _ => callees.binaryMessages false)
      (rules.pure ())
  binaryMessage super := rules.bind rules.binarySelector fun msg =>
    rules.bind (rules.addSymbol msg) fun _ => rules.bind callees.binaryOperand fun _ =>
      rules.emitMessage super msg
  binaryOperand := rules.bind callees.primary fun super =>
    rules.bind (rules.unaryMessages true calls super) fun _ => rules.pure super
  keywordMessage super := rules.bind callees.keywordArguments fun kw =>
    StepRules.symbolThen kw <| rules.bind (rules.addSymbol kw) fun _ => rules.emitMessage super kw
  keywordArguments := callees.keywordArguments_succ rules
  formula := rules.bind callees.binaryOperand fun super => callees.binaryMessages super
  nestedTerm := rules.bind (rules.expect .newTerm) fun _ => rules.bind callees.expression fun _ =>
    rules.expectLast .endTerm
  nestedBlock := callees.nestedBlock_succ rules
  blockContents := callees.blockContents_succ rules
  blockBody := callees.blockBody_succ rules
  result := callees.result_succ rules

end ProcedureRules

/-- The property holds of every nested procedure. -/
theorem LoopRules.procedures (rules : LoopRules Holds) :
    ∀ calls, ProcedureRules Holds calls
  | 0 => procedureRules_zero rules
  | calls + 1 => (procedures rules calls).succ rules

/-! ### Methods and classes -/

namespace LoopRules

variable (rules : LoopRules Holds)

include rules

theorem keywordPattern (calls : Nat) : Holds _ (keywordPattern calls) :=
  rules.bind (rules.keywordPatternArguments calls) fun kw =>
    rules.bind (rules.symbolFor kw) fun _ => rules.modifyMgenc _

theorem pattern (calls : Nat) : Holds _ (pattern calls) := by
  apply rules.bind rules.sym fun found => ?_
  split
  · exact rules.bind rules.unarySelector fun _ => rules.modifyMgenc _
  · exact rules.keywordPattern calls
  · exact rules.binaryPattern

theorem methodBlock (calls : Nat) : Holds _ (methodBlock calls) := by
  have closes := rules.expectLast .endTerm
  apply rules.bind (rules.expect .newTerm) fun _ => ?_
  apply rules.bind (rules.procedures calls).blockContents fun _ => ?_
  apply rules.bind rules.read fun parser => rules.ite ?_ closes
  apply rules.bind (rules.modifyMgenc _) fun _ => ?_
  apply rules.bind (rules.modifyMgenc _) fun _ => ?_
  apply rules.bind (rules.modifyMgenc _) fun _ => ?_
  exact rules.bind (rules.modifyMgenc _) fun _ => closes

theorem method (calls : Nat) : Holds _ (method calls) := by
  apply rules.bind (rules.pattern calls) fun _ => ?_
  apply rules.bind (rules.expect .equal) fun _ => ?_
  apply rules.bind rules.sym fun _ => rules.ite ?_ (rules.methodBlock calls)
  exact rules.bind (rules.modifyMgenc _) fun _ => rules.expectLast .primitive

theorem fieldNames {add : String → ClassGenerationContext → ClassGenerationContext}
    (keepsMethods : ∀ var, KeepsMethods (add var)) : ∀ calls, Holds _ (fieldNames add calls)
  | 0 => rules.stop
  | calls + 1 => by
      apply rules.bind rules.sym fun _ => rules.ite ?_ (rules.pure ())
      apply rules.bind rules.identifier fun var => ?_
      apply rules.bind (rules.symbolFor var) fun _ => ?_
      exact rules.bind (rules.classContext _ (keepsMethods var)) fun _ =>
        fieldNames keepsMethods calls

theorem methods {add : Literal → ClassGenerationContext → ClassGenerationContext}
    (adds : AddsMethod add) : ∀ calls, Holds _ (methods add calls)
  | 0 => rules.stop
  | calls + 1 => by
      have enters := rules.contexts (fun _ => [{ toScope := { arguments := ["self"] } }])
        fun parser => List.nil_sublist _
      apply rules.bind rules.sym fun _ => rules.ite ?_ (rules.pure ())
      apply rules.bind enters fun _ => ?_
      apply rules.bind (rules.method calls) fun _ => ?_
      exact rules.ofMethod _ adds (methods adds calls)

end LoopRules

/-- `Classdef` behind the symbol `=`. -/
def superAndBody (calls : Nat) : ParserM Unit := do
  let superName ← if (← sym) = .identifier then text else pure "Object"
  let _ ← symbolFor superName
  modifyClass fun cgenc => { cgenc with superName := superName }
  let _ ← accept .identifier
  let _ ← expect .newTerm
  instanceFields calls
  methods (fun invokable cgenc =>
    { cgenc with instanceMethods := cgenc.instanceMethods ++ [invokable] }) calls
  if ← accept .separator then
    modifyClass fun cgenc => { cgenc with classSide := true }
    classFields calls
    methods (fun invokable cgenc =>
      { cgenc with classMethods := cgenc.classMethods ++ [invokable] }) calls
  let _ ← expect .endTerm

theorem classdef_eq (calls : Nat) : classdef calls = (do
    let name ← text
    let _ ← symbolFor name
    modifyClass fun cgenc => { cgenc with name := name }
    let _ ← expect .identifier
    let _ ← expect .equal
    superAndBody calls) := rfl

/-- What `Classdef` does behind the name of the class, given its loops. -/
theorem holds_behindName (rules : StepRules Holds) {calls : Nat}
    (fields : ∀ add, (∀ var, KeepsMethods (add var)) → Holds _ (fieldNames add calls))
    (methods : ∀ add, AddsMethod add → Holds _ (methods add calls)) :
    Holds _ (do
      let _ ← expect .identifier
      let _ ← expect .equal
      superAndBody calls : ParserM Unit) := by
  have closes := rules.expectLast .endTerm
  have behindSuper : ∀ superName : String, Holds _ (do
      let _ ← symbolFor superName
      modifyClass fun cgenc => { cgenc with superName := superName }
      let _ ← accept .identifier
      let _ ← expect .newTerm
      instanceFields calls
      Parser.methods (fun invokable cgenc =>
        { cgenc with instanceMethods := cgenc.instanceMethods ++ [invokable] }) calls
      if ← accept .separator then
        modifyClass fun cgenc => { cgenc with classSide := true }
        classFields calls
        Parser.methods (fun invokable cgenc =>
          { cgenc with classMethods := cgenc.classMethods ++ [invokable] }) calls
      let _ ← expect .endTerm : ParserM Unit) := by
    intro superName
    apply rules.bind (rules.symbolFor superName) fun _ => ?_
    refine rules.bind (rules.classContext _ ?_) fun _ => ?_
    · exact fun _ => ⟨rfl, rfl, rfl⟩
    apply rules.bind (rules.accept .identifier) fun _ => ?_
    apply rules.bind (rules.expect .newTerm) fun _ => ?_
    refine rules.bind (rules.fieldsOf (fields _ ?_)) fun _ => ?_
    · exact fun _ _ => ⟨rfl, rfl, rfl⟩
    apply rules.bind (methods _ addsMethod_instance) fun _ => ?_
    apply rules.bind (rules.accept .separator) fun _ => rules.ite ?_ closes
    refine rules.bind (rules.classContext _ ?_) fun _ => ?_
    · exact fun _ => ⟨rfl, rfl, rfl⟩
    refine rules.bind (rules.fieldsOf (fields _ ?_)) fun _ => ?_
    · exact fun _ _ => ⟨rfl, rfl, rfl⟩
    exact rules.bind (methods _ addsMethod_class) fun _ => closes
  apply rules.bind (rules.expect .identifier) fun _ => ?_
  apply rules.bind (rules.expect .equal) fun _ => ?_
  apply rules.bind rules.sym fun found => rules.ite ?_ ?_
  · exact rules.bind rules.text behindSuper
  · exact rules.bind (rules.pure "Object") behindSuper

end Somr.Compiler.Parser
