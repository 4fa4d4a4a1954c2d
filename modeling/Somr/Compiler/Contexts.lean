import Somr.Compiler.Symbols
import Somr.Foundation.Process

/-!
Owns the generation contexts and the bytecode generator: literal tables, the
lexical lookup of variables, the operand bytes, and the stack depth a method
reserves.

A compilation owns the list of the objects it allocates besides symbols, oldest
first. An object is named by its position in that list, a symbol by its text,
because symbols are interned; two literals are the same pointer exactly when
these names agree.
-/

namespace Somr.Compiler

open Somr.Foundation

/-- A `pVMObject` as the generation contexts hold it. -/
inductive Literal where
  | symbol (text : String)
  | object (address : Nat)
deriving DecidableEq, Repr

/-- What `MethodGenerationContext::Assemble` puts into the method object. There is
no stack size where the walk over the code reads a selector that is no symbol. -/
structure CompiledMethod where
  signature : String
  numberOfLocals : Nat
  maximumNumberOfStackElements : Option UInt8
  literals : List Literal
  bytecode : List UInt8
deriving DecidableEq, Repr

/-- The objects a compilation allocates, through `NewInteger`, `NewString`,
`NewMethod` and `GetEmptyPrimitive`. -/
inductive CompiledObject where
  | integer (value : Int)
  | string (chars : String)
  | method (method : CompiledMethod)
  | primitive (signature : String)
deriving DecidableEq, Repr

/-- The names a generation context declares. -/
structure Scope where
  arguments : List String := []
  locals : List String := []
deriving DecidableEq, Repr

structure MethodGenerationContext extends Scope where
  blockMethod : Bool := false
  signature : String := ""
  primitive : Bool := false
  literals : List Literal := []
  finished : Bool := false
  bytecode : List UInt8 := []
deriving DecidableEq, Repr

structure ClassGenerationContext where
  name : String := ""
  superName : String := ""
  classSide : Bool := false
  instanceFields : List String := []
  instanceMethods : List Literal := []
  classFields : List String := []
  classMethods : List Literal := []
deriving DecidableEq, Repr

/-! ### Bytecodes -/

namespace Bytecode

def halt : UInt8 := 0
def dup : UInt8 := 1
def pushLocal : UInt8 := 2
def pushArgument : UInt8 := 3
def pushField : UInt8 := 4
def pushBlock : UInt8 := 5
def pushConstant : UInt8 := 6
def pushGlobal : UInt8 := 7
def pop : UInt8 := 8
def popLocal : UInt8 := 9
def popArgument : UInt8 := 10
def popField : UInt8 := 11
def send : UInt8 := 12
def superSend : UInt8 := 13
def returnLocal : UInt8 := 14
def returnNonLocal : UInt8 := 15

/-- `Bytecode::GetBytecodeLength`; a byte past the table is no bytecode. -/
def getBytecodeLength (bytecode : UInt8) : Option Nat :=
  [1, 1, 3, 3, 2, 2, 2, 2, 1, 3, 3, 2, 2, 2, 1, 1][bytecode.toNat]?

end Bytecode

/-! ### Class generation context -/

/-- `ClassGenerationContext::FindField`: the fields of the class being compiled,
on the side being compiled, and no inherited ones. -/
def ClassGenerationContext.findField (cgenc : ClassGenerationContext) (field : String) : Bool :=
  (if cgenc.classSide then cgenc.classFields else cgenc.instanceFields).contains field

/-! ### Method generation context -/

/-- Where `FindVar` found a variable. -/
structure VariableSlot where
  index : Nat
  context : Nat
  isArgument : Bool
deriving DecidableEq, Repr

/-- `MethodGenerationContext::FindVar` on the scopes of a context and its outer
contexts, innermost first. -/
def findVar (var : String) : List Scope → Nat → Option VariableSlot
  | [], _ => none
  | scope :: outer, context =>
      match scope.locals.idxOf? var with
      | some index => some ⟨index, context, false⟩
      | none =>
          match scope.arguments.idxOf? var with
          | some index => some ⟨index, context, true⟩
          | none => findVar var outer (context + 1)

namespace MethodGenerationContext

/-- `ExtendedList::IndexOf` with its `-1`. -/
def indexOfLiteral (mgenc : MethodGenerationContext) (literal : Literal) : Int :=
  match mgenc.literals.idxOf? literal with
  | some index => index
  | none => -1

/-- `FindLiteralIndex`: the index goes through a signed byte. -/
def findLiteralIndex (mgenc : MethodGenerationContext) (literal : Literal) : Int8 :=
  Int8.ofInt (mgenc.indexOfLiteral literal)

def addLiteral (mgenc : MethodGenerationContext) (literal : Literal) : MethodGenerationContext :=
  { mgenc with literals := mgenc.literals ++ [literal] }

def addLiteralIfAbsent (mgenc : MethodGenerationContext) (literal : Literal) :
    MethodGenerationContext :=
  if literal ∈ mgenc.literals then mgenc else mgenc.addLiteral literal

def addArgument (mgenc : MethodGenerationContext) (argument : String) :
    MethodGenerationContext :=
  { mgenc with arguments := mgenc.arguments ++ [argument] }

/-- The absence test looks at the locals, as the source does. -/
def addArgumentIfAbsent (mgenc : MethodGenerationContext) (argument : String) :
    MethodGenerationContext :=
  if argument ∈ mgenc.locals then mgenc else mgenc.addArgument argument

def addLocalIfAbsent (mgenc : MethodGenerationContext) (name : String) :
    MethodGenerationContext :=
  if name ∈ mgenc.locals then mgenc else { mgenc with locals := mgenc.locals ++ [name] }

def addBytecode (mgenc : MethodGenerationContext) (byte : UInt8) : MethodGenerationContext :=
  { mgenc with bytecode := mgenc.bytecode ++ [byte] }

def removeLastBytecode (mgenc : MethodGenerationContext) : MethodGenerationContext :=
  { mgenc with bytecode := mgenc.bytecode.dropLast }

/-- The walk of `ComputeStackDepth`: `depth` and `maxDepth` are bytes, and a send
looks its selector up in the literals. `none` is a walk the source does not
survive: an illegal bytecode, a missing operand, or a selector that is no symbol.
Each round eats at least one byte, so `rounds` is the length of the code. -/
def computeStackDepthFrom (literals : List Literal) :
    (rounds : Nat) → List UInt8 → (depth maxDepth : UInt8) → Option UInt8
  | _, [], _, maxDepth => some maxDepth
  | 0, _ :: _, _, _ => none
  | rounds + 1, bytecode :: rest, depth, maxDepth =>
      let next (depth : UInt8) (rest : List UInt8) :=
        computeStackDepthFrom literals rounds rest depth (if depth > maxDepth then depth else maxDepth)
      if bytecode = Bytecode.halt then next depth rest
      else if bytecode = Bytecode.dup then next (depth + 1) rest
      else if bytecode = Bytecode.pushLocal ∨ bytecode = Bytecode.pushArgument then
        next (depth + 1) (rest.drop 2)
      else if bytecode = Bytecode.pushField ∨ bytecode = Bytecode.pushBlock ∨
          bytecode = Bytecode.pushConstant ∨ bytecode = Bytecode.pushGlobal then
        next (depth + 1) (rest.drop 1)
      else if bytecode = Bytecode.pop then next (depth - 1) rest
      else if bytecode = Bytecode.popLocal ∨ bytecode = Bytecode.popArgument then
        next (depth - 1) (rest.drop 2)
      else if bytecode = Bytecode.popField then next (depth - 1) (rest.drop 1)
      else if bytecode = Bytecode.send ∨ bytecode = Bytecode.superSend then
        match rest with
        | [] => none
        | index :: rest =>
            match literals[index.toNat]? with
            | some (.symbol sig) =>
                next (depth - UInt8.ofNat (Signature.getNumberOfArguments sig) + 1) rest
            | _ => none
      else if bytecode = Bytecode.returnLocal ∨ bytecode = Bytecode.returnNonLocal then
        next depth rest
      else none

def computeStackDepth (mgenc : MethodGenerationContext) : Option UInt8 :=
  computeStackDepthFrom mgenc.literals mgenc.bytecode.length mgenc.bytecode 0 0

end MethodGenerationContext

/-- The method object `Assemble` fills. -/
def MethodGenerationContext.compiled (mgenc : MethodGenerationContext) : CompiledMethod :=
  ⟨mgenc.signature, mgenc.locals.length, mgenc.computeStackDepth, mgenc.literals, mgenc.bytecode⟩

/-! ### Bytecode generator -/

namespace BytecodeGenerator

open MethodGenerationContext

def emit1 (mgenc : MethodGenerationContext) (bytecode : UInt8) : MethodGenerationContext :=
  mgenc.addBytecode bytecode

def emit2 (mgenc : MethodGenerationContext) (bytecode operand : UInt8) :
    MethodGenerationContext :=
  (mgenc.addBytecode bytecode).addBytecode operand

/-- `EMIT3` with the `int` arguments cut to the byte `AddBytecode` takes. -/
def emit3 (mgenc : MethodGenerationContext) (bytecode : UInt8) (idx ctx : Nat) :
    MethodGenerationContext :=
  ((mgenc.addBytecode bytecode).addBytecode (UInt8.ofNat idx)).addBytecode (UInt8.ofNat ctx)

/-- The family of emitters whose operand is the index of a literal. -/
def emitLiteral (bytecode : UInt8) (mgenc : MethodGenerationContext) (literal : Literal) :
    MethodGenerationContext :=
  emit2 mgenc bytecode (mgenc.findLiteralIndex literal).toUInt8

def emitHALT (mgenc : MethodGenerationContext) := emit1 mgenc Bytecode.halt
def emitDUP (mgenc : MethodGenerationContext) := emit1 mgenc Bytecode.dup
def emitPUSHLOCAL (mgenc : MethodGenerationContext) (idx ctx : Nat) :=
  emit3 mgenc Bytecode.pushLocal idx ctx
def emitPUSHARGUMENT (mgenc : MethodGenerationContext) (idx ctx : Nat) :=
  emit3 mgenc Bytecode.pushArgument idx ctx
def emitPUSHFIELD := emitLiteral Bytecode.pushField
def emitPUSHBLOCK := emitLiteral Bytecode.pushBlock
def emitPUSHCONSTANT := emitLiteral Bytecode.pushConstant
def emitPUSHGLOBAL := emitLiteral Bytecode.pushGlobal
def emitPOP (mgenc : MethodGenerationContext) := emit1 mgenc Bytecode.pop
def emitPOPLOCAL (mgenc : MethodGenerationContext) (idx ctx : Nat) :=
  emit3 mgenc Bytecode.popLocal idx ctx
def emitPOPARGUMENT (mgenc : MethodGenerationContext) (idx ctx : Nat) :=
  emit3 mgenc Bytecode.popArgument idx ctx
def emitPOPFIELD := emitLiteral Bytecode.popField
def emitSEND := emitLiteral Bytecode.send
def emitSUPERSEND := emitLiteral Bytecode.superSend
def emitRETURNLOCAL (mgenc : MethodGenerationContext) := emit1 mgenc Bytecode.returnLocal
def emitRETURNNONLOCAL (mgenc : MethodGenerationContext) := emit1 mgenc Bytecode.returnNonLocal

end BytecodeGenerator

/-! ### Numbers and signatures -/

/-- `(int32_t)` on an integer. -/
def asInt32 (value : Int) : Int := value.bmod 4294967296

/-- `strtoul` with base ten and a 32-bit `unsigned long`, which saturates. -/
def strtoul (text : String) : Nat :=
  min ((text.toList.takeWhile Char.isDigit).foldl
    (fun value digit => 10 * value + (digit.toNat - '0'.toNat)) 0) 4294967295

/-- The signature `nestedBlock` gives a block method: a colon for each argument
after the block itself. -/
def blockSignature (numberOfArguments : Nat) : String :=
  "$block method" ++ String.ofList (List.replicate (numberOfArguments - 1) ':')

end Somr.Compiler
