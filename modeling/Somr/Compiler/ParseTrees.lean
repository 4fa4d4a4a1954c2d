import Somr.Compiler.LiteralTable
import Somr.Foundation.PostOrder

/-!
Owns the parse tree of an expression and its post-order code.

In a parse tree a unary message binds tighter than a binary one and a binary
message tighter than a keyword message, unary and binary messages associate to
the left, and only a message to the variable `super` itself is sent to super.
-/

namespace Somr.Compiler

open Somr.Foundation

/-! ### Parse trees -/

/-- What an expression is built from; a literal knows how many objects exist
before it. -/
inductive Leaf where
  | name (text : String)
  | literal (source : LiteralSource) (base : Nat)
  | block (unit : CodeUnit)

inductive Operation where
  | send (toSuper : Bool) (selector : String)
  | assign (targets : List String)

abbrev ParseTree : Type := Tree Leaf Operation

/-- Unary messages to a receiver; only the first can be sent to super. -/
def unaryTree (toSuper : Bool) (receiver : ParseTree) : List Identifier → ParseTree
  | [] => receiver
  | selector :: rest => unaryTree false (.node (.send toSuper selector.text) [receiver]) rest

/-- The keyword message to a receiver, where there is one. -/
def keywordTree (toSuper : Bool) (receiver : ParseTree) (arguments : List ParseTree) :
    Keywords → ParseTree
  | .done => receiver
  | keywords => .node (.send toSuper keywords.selector) (receiver :: arguments)

/-- The assignment of a value, where there is one. -/
def assignTree (value : ParseTree) (targets : List Identifier) : ParseTree :=
  if targets.isEmpty then value else .node (.assign (targets.map Identifier.text)) [value]

mutual

def Primary.tree (environment : Environment) (base : Nat) : Primary → ParseTree
  | .name identifier => .leaf (.name identifier.text)
  | .term expression => expression.tree environment base
  | .block parameters locals body =>
      .leaf (.block ⟨true, environment, blockScope parameters locals,
        blockSignature (parameters.length + 1), base, body⟩)
  | .literal source => .leaf (.literal source base)

def Expression.tree (environment : Environment) (base : Nat) : Expression → ParseTree
  | .mk targets primary unaries binaries keywords =>
      let super := primary.isSuper
      let operand := unaryTree super (primary.tree environment base) unaries
      let behind := base + (primary.generate environment base).objects.length
      let formula := binaries.tree environment behind (super && unaries.isEmpty) operand
      let arguments := keywords.trees environment
        (behind + (binaries.generate environment false behind).objects.length)
      assignTree (keywordTree (super && unaries.isEmpty && binaries.isDone) formula arguments
        keywords) targets

def Binaries.tree (environment : Environment) (base : Nat) (toSuper : Bool)
    (receiver : ParseTree) : Binaries → ParseTree
  | .done => receiver
  | .message operator primary unaries rest =>
      let operand := unaryTree primary.isSuper (primary.tree environment base) unaries
      rest.tree environment (base + (primary.generate environment base).objects.length) false
        (.node (.send toSuper operator.token.text) [receiver, operand])

/-- The arguments of a keyword message. -/
def Keywords.trees (environment : Environment) (base : Nat) : Keywords → List ParseTree
  | .done => []
  | .message _ primary unaries binaries rest =>
      let super := primary.isSuper
      let operand := unaryTree super (primary.tree environment base) unaries
      let behind := base + (primary.generate environment base).objects.length
      binaries.tree environment behind (super && unaries.isEmpty) operand ::
        rest.trees environment
          (behind + (binaries.generate environment false behind).objects.length)

end

/-! ### The code of a parse tree -/

/-- The instruction that reads a variable. -/
def readInstruction (environment : Environment) (var : String) : Instruction :=
  match findVar var environment.scopes 0 with
  | some ⟨index, context, true⟩ => .pushArgument index context
  | some ⟨index, context, false⟩ => .pushLocal index context
  | none =>
      if environment.classContext.findField var then .pushField (.symbol var)
      else .pushGlobal (.symbol var)

/-- The instruction that writes a variable. -/
def writeInstruction (environment : Environment) (var : String) : Instruction :=
  match findVar var environment.scopes 0 with
  | some ⟨index, context, true⟩ => .popArgument index context
  | some ⟨index, context, false⟩ => .popLocal index context
  | none => .popField (.symbol var)

def Leaf.instruction (environment : Environment) : Leaf → Instruction
  | .name text => readInstruction environment (if text = "super" then "self" else text)
  | .literal source base => .pushConstant (source.literal base)
  | .block unit => .pushBlock (.object unit.address)

def Operation.instructions (environment : Environment) : Operation → List Instruction
  | .send toSuper selector => [sendInstruction toSuper selector]
  | .assign targets =>
      targets.map (fun _ => .dup) ++ targets.map (writeInstruction environment)

/-- The operands of an operation: a send has as many as its selector says. -/
def Operation.rank : Operation → Nat
  | .send _ selector => Signature.getNumberOfArguments selector
  | .assign _ => 1

/-- The object a literal or a block stands for is where its leaf says. -/
def Leaf.Placed (objects : List CompiledObject) : Leaf → Prop
  | .name _ => True
  | .literal source base => ∀ object ∈ source.object?, objects[base]? = some object
  | .block unit => unit.Placed objects

abbrev treeCode (environment : Environment) : ParseTree → List Instruction :=
  Tree.code (Leaf.instruction environment) (Operation.instructions environment)

abbrev forestCode (environment : Environment) : List ParseTree → List Instruction :=
  Tree.forestCode (Leaf.instruction environment) (Operation.instructions environment)

/-- The code of the statements of a method or a block. -/
def Body.code (environment : Environment) (block : Bool) (base : Nat) : Body → List Instruction
  | .empty => if block then [.returnLocal] else [.pushArgument 0 0, .returnLocal]
  | .result value _ =>
      treeCode environment (value.tree environment base) ++
        [if block then .returnNonLocal else .returnLocal]
  | .last value =>
      treeCode environment (value.tree environment base) ++
        (if block then [.returnLocal] else [.pop, .pushArgument 0 0, .returnLocal])
  | .statement value rest =>
      treeCode environment (value.tree environment base) ++
        ((if block && rest.isEmpty then [] else [.pop]) ++
          rest.code environment block (base + (value.generate environment base).objects.length))

def CodeUnit.code (unit : CodeUnit) : List Instruction :=
  unit.body.code (unit.environment.enter unit.scope) unit.block unit.base

/-! ### Messages to super behind an operand -/

/-- At most one message to an operand that is `super`. -/
def operandOnce (primary : Primary) (unaries : List Identifier) : Bool :=
  !primary.isSuper || decide (unaries.length ≤ 1)

mutual

/-- No operand of a binary or keyword message is `super` followed by more than
one message of its own. -/
def Primary.superOnce : Primary → Bool
  | .term expression => expression.superOnce
  | _ => true

def Expression.superOnce : Expression → Bool
  | .mk _ primary _ binaries keywords =>
      primary.superOnce && binaries.superOnce && keywords.superOnce

def Binaries.superOnce : Binaries → Bool
  | .done => true
  | .message _ primary unaries rest =>
      primary.superOnce && operandOnce primary unaries && rest.superOnce

def Keywords.superOnce : Keywords → Bool
  | .done => true
  | .message _ primary unaries binaries rest =>
      primary.superOnce && operandOnce primary unaries &&
        (!primary.isSuper || unaries.isEmpty || binaries.isDone) && binaries.superOnce &&
          rest.superOnce

end

def Body.superOnce : Body → Bool
  | .empty => true
  | .result value _ => value.superOnce
  | .last value => value.superOnce
  | .statement value rest => value.superOnce && rest.superOnce

end Somr.Compiler
