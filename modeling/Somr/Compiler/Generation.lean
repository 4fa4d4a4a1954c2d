import Somr.Compiler.Contexts
import Somr.Compiler.Grammar

/-!
Owns the code generation the grammar prescribes for the parser, by recursion on
syntax trees instead of on tokens.

`generate` answers what a syntax tree adds to a compilation: the calls made on
the generation context, the objects allocated, and the blocks compiled on the
way. It depends on the names in scope and on how many objects exist already.
-/

namespace Somr.Compiler

/-! ### Instructions -/

/-- One call of an `Emit` function with the arguments it is handed. -/
inductive Instruction where
  | halt
  | dup
  | pushLocal (idx ctx : Nat)
  | pushArgument (idx ctx : Nat)
  | pushField (field : Literal)
  | pushBlock (block : Literal)
  | pushConstant (cst : Literal)
  | pushGlobal (global : Literal)
  | pop
  | popLocal (idx ctx : Nat)
  | popArgument (idx ctx : Nat)
  | popField (field : Literal)
  | send (msg : Literal)
  | superSend (msg : Literal)
  | returnLocal
  | returnNonLocal
deriving DecidableEq, Repr

/-- The `Emit` function of an instruction. -/
def Instruction.emit : Instruction → MethodGenerationContext → MethodGenerationContext
  | .halt, mgenc => BytecodeGenerator.emitHALT mgenc
  | .dup, mgenc => BytecodeGenerator.emitDUP mgenc
  | .pushLocal idx ctx, mgenc => BytecodeGenerator.emitPUSHLOCAL mgenc idx ctx
  | .pushArgument idx ctx, mgenc => BytecodeGenerator.emitPUSHARGUMENT mgenc idx ctx
  | .pushField field, mgenc => BytecodeGenerator.emitPUSHFIELD mgenc field
  | .pushBlock block, mgenc => BytecodeGenerator.emitPUSHBLOCK mgenc block
  | .pushConstant cst, mgenc => BytecodeGenerator.emitPUSHCONSTANT mgenc cst
  | .pushGlobal global, mgenc => BytecodeGenerator.emitPUSHGLOBAL mgenc global
  | .pop, mgenc => BytecodeGenerator.emitPOP mgenc
  | .popLocal idx ctx, mgenc => BytecodeGenerator.emitPOPLOCAL mgenc idx ctx
  | .popArgument idx ctx, mgenc => BytecodeGenerator.emitPOPARGUMENT mgenc idx ctx
  | .popField field, mgenc => BytecodeGenerator.emitPOPFIELD mgenc field
  | .send msg, mgenc => BytecodeGenerator.emitSEND mgenc msg
  | .superSend msg, mgenc => BytecodeGenerator.emitSUPERSEND mgenc msg
  | .returnLocal, mgenc => BytecodeGenerator.emitRETURNLOCAL mgenc
  | .returnNonLocal, mgenc => BytecodeGenerator.emitRETURNNONLOCAL mgenc

/-- One call on a generation context. -/
inductive Action where
  | addLiteralIfAbsent (literal : Literal)
  | addLiteral (literal : Literal)
  | emit (instruction : Instruction)
deriving DecidableEq, Repr

def Action.apply : MethodGenerationContext → Action → MethodGenerationContext
  | mgenc, .addLiteralIfAbsent literal => mgenc.addLiteralIfAbsent literal
  | mgenc, .addLiteral literal => mgenc.addLiteral literal
  | mgenc, .emit instruction => instruction.emit mgenc

def MethodGenerationContext.perform (mgenc : MethodGenerationContext) (actions : List Action) :
    MethodGenerationContext :=
  actions.foldl Action.apply mgenc

/-! ### Variables -/

/-- The names in scope of a piece of code. -/
structure Environment where
  scopes : List Scope
  classContext : ClassGenerationContext

def Environment.enter (environment : Environment) (scope : Scope) : Environment :=
  { environment with scopes := scope :: environment.scopes }

/-- What `genPushVariable` does. -/
def pushVariable (environment : Environment) (var : String) : List Action :=
  match findVar var environment.scopes 0 with
  | some ⟨index, context, true⟩ => [.emit (.pushArgument index context)]
  | some ⟨index, context, false⟩ => [.emit (.pushLocal index context)]
  | none =>
      if environment.classContext.findField var then
        [.addLiteralIfAbsent (.symbol var), .emit (.pushField (.symbol var))]
      else [.addLiteralIfAbsent (.symbol var), .emit (.pushGlobal (.symbol var))]

/-- What `genPopVariable` does. -/
def popVariable (environment : Environment) (var : String) : List Action :=
  match findVar var environment.scopes 0 with
  | some ⟨index, context, true⟩ => [.emit (.popArgument index context)]
  | some ⟨index, context, false⟩ => [.emit (.popLocal index context)]
  | none => [.emit (.popField (.symbol var))]

/-- The send of a message whose selector is a literal already. -/
def sendInstruction (super : Bool) (selector : String) : Instruction :=
  if super then .superSend (.symbol selector) else .send (.symbol selector)

/-! ### What a syntax tree adds -/

/-- A method or block of the source: what surrounds it, its names, how many
objects exist before it, and its body. -/
structure CodeUnit where
  block : Bool
  environment : Environment
  scope : Scope
  signature : String
  base : Nat
  body : Body

/-- What compiling a piece of syntax adds to a compilation. -/
structure Generated where
  actions : List Action
  objects : List CompiledObject
  blocks : List CodeUnit

/-- Generation starts from the number of objects that exist already. -/
def Generator : Type := Nat → Generated

namespace Generator

def actions (list : List Action) : Generator := fun _ => ⟨list, [], []⟩

def andThen (first second : Generator) : Generator := fun base =>
  let early := first base
  let late := second (base + early.objects.length)
  ⟨early.actions ++ late.actions, early.objects ++ late.objects, early.blocks ++ late.blocks⟩

end Generator

/-- The object an integer or a string literal allocates. -/
def LiteralSource.object? : LiteralSource → Option CompiledObject
  | .integer digits => some (.integer (asInt32 (strtoul digits)))
  | .negative digits => some (.integer (asInt32 (-asInt32 (strtoul digits))))
  | .string chars => some (.string chars)
  | .symbol _ | .symbolString _ => none

def LiteralSource.literal (base : Nat) : LiteralSource → Literal
  | .symbol selector => .symbol selector.token.text
  | .symbolString chars => .symbol chars
  | .integer _ | .negative _ | .string _ => .object base

def LiteralSource.generate (source : LiteralSource) : Generator := fun base =>
  ⟨[.addLiteralIfAbsent (source.literal base), .emit (.pushConstant (source.literal base))],
    source.object?.toList, []⟩

/-- The locals `AddLocalIfAbsent` leaves of a list of names. -/
def declaredLocals (locals : Option (List Identifier)) : List String :=
  (locals.getD []).foldl (fun names name => if name.text ∈ names then names else names ++ [name.text])
    []

/-- The scope of a block with these parameters and locals. -/
def blockScope (parameters : List Parameter) (locals : Option (List Identifier)) : Scope :=
  ⟨"$block self" :: parameters.map (·.token.text), declaredLocals locals⟩

/-- The context a method or block body is compiled in. -/
def MethodGenerationContext.opened (blockMethod : Bool) (signature : String) (scope : Scope) :
    MethodGenerationContext :=
  { toScope := scope, blockMethod := blockMethod, signature := signature }

/-- Unary messages to a receiver; `keepSuper` says whether the later ones are
super sends as well. -/
def unaryActions (keepSuper : Bool) : Bool → List Identifier → List Action
  | _, [] => []
  | super, selector :: rest =>
      .addLiteralIfAbsent (.symbol selector.text) :: .emit (sendInstruction super selector.text) ::
        unaryActions keepSuper (super && keepSuper) rest

/-- The send that ends a keyword message. -/
def Keywords.sendActions (super : Bool) : Keywords → List Action
  | .done => []
  | keywords =>
      [.addLiteralIfAbsent (.symbol keywords.selector),
        .emit (sendInstruction super keywords.selector)]

/-- The stores of an assignment, behind the value. -/
def assignActions (environment : Environment) (targets : List Identifier) : List Action :=
  targets.map (fun _ => .emit .dup) ++
    targets.flatMap fun target => popVariable environment target.text

/-- What ends a body whose last statement is not terminated. -/
def Body.closing (block : Bool) (body : Body) : List Action :=
  if body.endsOpen then
    if block then [.emit .returnLocal]
    else [.emit .pop, .emit (.pushArgument 0 0), .emit .returnLocal]
  else []

mutual

def Primary.generate (environment : Environment) : Primary → Generator
  | .name identifier =>
      .actions (pushVariable environment
        (if identifier.text = "super" then "self" else identifier.text))
  | .term expression => expression.generate environment
  | .block parameters locals body => fun base =>
      let scope := blockScope parameters locals
      let signature := blockSignature (parameters.length + 1)
      let inner := ((body.generate (environment.enter scope) true).andThen
        (.actions (body.closing true))) base
      let mgenc := (MethodGenerationContext.opened true signature scope).perform inner.actions
      let block : Literal := .object (base + inner.objects.length)
      ⟨[.addLiteral block, .emit (.pushBlock block)],
        inner.objects ++ [.method mgenc.compiled],
        inner.blocks ++ [⟨true, environment, scope, signature, base, body⟩]⟩
  | .literal source => source.generate

def Expression.generate (environment : Environment) : Expression → Generator
  | .mk targets primary unaries binaries keywords =>
      let super := primary.isSuper
      (Generator.actions (targets.map fun target => .addLiteralIfAbsent (.symbol target.text))).andThen
      ((primary.generate environment).andThen
      ((Generator.actions (unaryActions false super unaries)).andThen
      ((binaries.generate environment (super && unaries.isEmpty)).andThen
      ((keywords.generate environment).andThen
      (.actions (keywords.sendActions (super && unaries.isEmpty && binaries.isDone) ++
        assignActions environment targets))))))

/-- Only the first of the messages can be a super send. -/
def Binaries.generate (environment : Environment) (super : Bool) : Binaries → Generator
  | .done => .actions []
  | .message operator primary unaries rest =>
      (Generator.actions [.addLiteralIfAbsent (.symbol operator.token.text)]).andThen
      ((primary.generate environment).andThen
      ((Generator.actions (unaryActions true primary.isSuper unaries ++
        [.emit (sendInstruction super operator.token.text)])).andThen
      (rest.generate environment false)))

/-- The arguments of a keyword message. -/
def Keywords.generate (environment : Environment) : Keywords → Generator
  | .done => .actions []
  | .message _ primary unaries binaries rest =>
      (primary.generate environment).andThen
      ((Generator.actions (unaryActions true primary.isSuper unaries)).andThen
      ((binaries.generate environment primary.isSuper).andThen
      (rest.generate environment)))

/-- The statements of a block, or of a method when `block` is false. -/
def Body.generate (environment : Environment) (block : Bool) : Body → Generator
  | .empty =>
      .actions (if block then [.emit .returnLocal]
        else [.emit (.pushArgument 0 0), .emit .returnLocal])
  | .result value _ =>
      (value.generate environment).andThen
      (.actions [.emit (if block then .returnNonLocal else .returnLocal)])
  | .last value => value.generate environment
  | .statement value rest =>
      (value.generate environment).andThen
      ((Generator.actions (if block && rest.isEmpty then [] else [.emit .pop])).andThen
      (rest.generate environment block))

end

/-! ### Methods and classes -/

namespace CodeUnit

/-- What the body of a unit generates in its own context. -/
def generated (unit : CodeUnit) : Generated :=
  ((unit.body.generate (unit.environment.enter unit.scope) unit.block).andThen
    (.actions (unit.body.closing unit.block))) unit.base

/-- The context of a unit once its body has been compiled. -/
def mgenc (unit : CodeUnit) : MethodGenerationContext :=
  (MethodGenerationContext.opened unit.block unit.signature unit.scope).perform
    unit.generated.actions

/-- Where the method object of a unit is. -/
def address (unit : CodeUnit) : Nat := unit.base + unit.generated.objects.length

end CodeUnit

/-- The selector of a keyword pattern. -/
def keywordSignature : Keyword × Parameter → List (Keyword × Parameter) → String
  | first, [] => first.1.text
  | first, next :: rest => first.1.text ++ keywordSignature next rest

def MethodPattern.signature : MethodPattern → String
  | .unary selector => selector.text
  | .binary operator _ => operator.token.text
  | .keyword first rest => keywordSignature first rest

def MethodPattern.arguments : MethodPattern → List String
  | .unary _ => []
  | .binary _ argument => [argument.token.text]
  | .keyword first rest => (first :: rest).map (·.2.token.text)

/-- The code of a method that is no primitive. -/
def MethodDefinition.unit? (cgenc : ClassGenerationContext) (base : Nat) :
    MethodDefinition → Option CodeUnit
  | .primitive _ => none
  | .code pattern locals body =>
      some ⟨false, ⟨[], cgenc⟩, ⟨"self" :: pattern.arguments, declaredLocals locals⟩,
        pattern.signature, base, body⟩

/-- What the methods of a class add to a compilation. -/
structure ClassGenerated where
  objects : List CompiledObject
  units : List CodeUnit
  classContext : ClassGenerationContext

/-- One method, added to the class by `add`. -/
def MethodDefinition.generate (add : Literal → ClassGenerationContext → ClassGenerationContext)
    (base : Nat) (cgenc : ClassGenerationContext) (definition : MethodDefinition) :
    ClassGenerated :=
  match definition.unit? cgenc base with
  | none => ⟨[.primitive definition.pattern.signature], [], add (.object base) cgenc⟩
  | some unit =>
      ⟨unit.generated.objects ++ [.method unit.mgenc.compiled], unit.generated.blocks ++ [unit],
        add (.object unit.address) cgenc⟩

def generateMethods (add : Literal → ClassGenerationContext → ClassGenerationContext) :
    Nat → ClassGenerationContext → List MethodDefinition → ClassGenerated
  | _, cgenc, [] => ⟨[], [], cgenc⟩
  | base, cgenc, method :: rest =>
      let early := method.generate add base cgenc
      let late := generateMethods add (base + early.objects.length) early.classContext rest
      ⟨early.objects ++ late.objects, early.units ++ late.units, late.classContext⟩

def fieldTexts (fields : Option (List Identifier)) : List String :=
  (fields.getD []).map Identifier.text

/-- The class context in which the first method of the instance side is compiled. -/
def ClassDefinition.instanceContext (definition : ClassDefinition) : ClassGenerationContext :=
  { name := definition.name.text
    superName := (definition.superName.map Identifier.text).getD "Object"
    instanceFields := fieldTexts definition.instanceSide.fields }

/-- The class side, compiled behind the instance side. -/
def generateClassSide (base : Nat) (cgenc : ClassGenerationContext) :
    Option ClassSide → ClassGenerated
  | none => ⟨[], [], cgenc⟩
  | some side =>
      generateMethods (fun invokable cgenc =>
          { cgenc with classMethods := cgenc.classMethods ++ [invokable] }) base
        { cgenc with
          classSide := true
          classFields := cgenc.classFields ++ fieldTexts side.fields }
        side.methods

def ClassDefinition.generate (definition : ClassDefinition) : ClassGenerated :=
  let early := generateMethods (fun invokable cgenc =>
    { cgenc with instanceMethods := cgenc.instanceMethods ++ [invokable] }) 0
      definition.instanceContext definition.instanceSide.methods
  let late := generateClassSide early.objects.length early.classContext definition.classSide
  ⟨early.objects ++ late.objects, early.units ++ late.units, late.classContext⟩

end Somr.Compiler
