import Somr.Interpreter.Frames

/-!
Owns the interpreter: the bytecodes of `Interpreter::Start`, the invocation of
methods, block evaluations and primitives, and the runs of a program.

The image stands for the classes, the global dictionary and the other objects.
What it answers may depend on the whole state; the invokables it looks up are
methods that the compiler installed in a class, evaluation primitives of block
classes, and primitives, which may be any program over the operations that a
primitive has on frames.
-/

namespace Somr.Interpreter

open Foundation Compiler

/-! ### The image -/

/-- A method that the compiler put among the invokables of a class. -/
structure InstalledMethod (compilations : List Compilation) where
  compilation : Nat
  address : Nat
  source : Compilation
  compiled : compilations[compilation]? = some source
  installed : source.classContext.Installs address

def InstalledMethod.method {compilations : List Compilation}
    (installed : InstalledMethod compilations) : MethodAddress :=
  .compiled installed.compilation installed.address

/-- What a primitive routine may do. -/
inductive PrimitiveOperation (World Object : Type) where
  | read
  | pop (frame : Nat)
  | push (frame : Nat) (value : Value Object)
  | setElement (frame : Nat) (idx : Int) (value : Value Object)
  | setBytecodeIndex (frame : Nat) (index : Nat)
  | resetStackPointer (frame : Nat)
  | setWorld (world : World)
  | send (receiver : Value Object) (selector : String) (arguments : List (Value Object))
  | quit

abbrev PrimitiveOperation.Answer {World Object : Type} : PrimitiveOperation World Object → Type
  | .read => State World Object
  | .pop _ => Value Object
  | _ => Unit

/-- A `VMInvokable` that a lookup can find. -/
inductive Invokable (compilations : List Compilation) (World Object : Type) where
  | method (method : InstalledMethod compilations)
  | evaluation (argc : Nat)
  | primitive (routine : Nat →
      Program (PrimitiveOperation World Object) PrimitiveOperation.Answer Unit)

/-- The classes, globals and plain objects of a program. -/
structure Image (compilations : List Compilation) (World Object : Type) where
  nilObject : Object
  system : Object
  /-- How deep sends of primitives may nest on the C++ stack. -/
  stackDepth : Nat
  /-- The object a literal of a compilation stands for. -/
  constant : Nat → Literal → Value Object
  symbol : String → Value Object
  /-- `LookupInvokable` from the class of a receiver. -/
  lookupInvokable : State World Object → Value Object → String →
    Option (Invokable compilations World Object)
  /-- `LookupInvokable` from the superclass of the holder of a method. -/
  lookupSuper : State World Object → MethodAddress → String →
    Option (Invokable compilations World Object)
  getField : State World Object → Value Object → String → Option (Value Object)
  setField : World → Object → String → Value Object → Option World
  getGlobal : State World Object → String → Option (Value Object)
  setGlobal : World → String → Value Object → World
  newArray : World → List (Value Object) → World × Value Object
  /-- `GetBlockClassWithArgs` for a new block, which may load the class. -/
  setBlockClass : State World Object → Nat → Nat → Option World

section

variable {compilations : List Compilation} {World Object : Type}
  (image : Image compilations World Object)

/-- The contents of a method, where the interpreter uses them. -/
def readMethod (compilations : List Compilation) (method : MethodAddress) :
    InterpreterM World Object CompiledMethod :=
  Process.demand .undefined (methodAt compilations method)

/-- `Interpreter::GetMethod`. -/
def getMethod (compilations : List Compilation) : InterpreterM World Object CompiledMethod := do
  let frame ← readFrame (← getFrame)
  readMethod compilations frame.method

def setWorld (world : World) : InterpreterM World Object Unit :=
  Process.modify fun state => { state with world := world }

/-! ### New frames and blocks -/

/-- `VMFrame::ResetStackPointer`. -/
def Frame.resetStackPointer (method : CompiledMethod) (frame : Frame Object) : Frame Object :=
  { frame with
    localOffset := numberOfArguments method
    stackPointer := numberOfArguments method + method.numberOfLocals - 1 }

/-- `Universe::NewFrame`, with the frame it also stores as a global. -/
def newFrame (previousFrame : Option Nat) (method : MethodAddress) :
    InterpreterM World Object Nat := do
  let code ← readMethod compilations method
  let stackElements ← Process.demand .undefined code.maximumNumberOfStackElements
  let length := numberOfArguments code + code.numberOfLocals + stackElements.toNat
  let state ← Process.read
  let frame : Frame Object := {
    previousFrame := previousFrame
    method := method
    stackPointer := 0
    bytecodeIndex := 0
    localOffset := 0
    slots := List.replicate length (.object image.nilObject) }
  Process.modify fun state =>
    { state with frames := state.frames ++ [frame.resetStackPointer code] }
  setWorld (image.setGlobal state.world "Frame" (.frame state.frames.length))
  return state.frames.length

/-- `Interpreter::PushNewFrame`. -/
def pushNewFrame (method : MethodAddress) : InterpreterM World Object Nat := do
  let state ← Process.read
  let address ← newFrame image state.frame method
  setFrame (some address)
  return address

/-- `VMFrame::CopyArgumentsFrom`. -/
def copyArgumentsFrom (compilations : List Compilation) (address frame : Nat) :
    InterpreterM World Object Unit := do
  let callee ← readFrame address
  let method ← readMethod compilations callee.method
  (List.range (numberOfArguments method)).forM fun i => do
    let stackElem ← getStackElement frame (numberOfArguments method - 1 - i)
    setElement address i stackElem

/-- `VMFrame::EmergencyFrameFrom`. The copy shares the boxed numbers of the frame it
is made from, which is never the frame of the interpreter again. -/
def emergencyFrameFrom (address extraLength : Nat) : InterpreterM World Object Nat := do
  let frame ← readFrame address
  let state ← Process.read
  let more := List.replicate extraLength (.object image.nilObject)
  Process.modify fun state =>
    { state with frames := state.frames ++ [{ frame with slots := frame.slots ++ more }] }
  return state.frames.length

/-- Replace the frame of the interpreter by a larger one if it has not this many
free slots. -/
def reserve (free : Int) : InterpreterM World Object Unit := do
  let address ← getFrame
  let frame ← readFrame address
  let additionalStackSlots := free - frame.remainingStackSize
  if additionalStackSlots > 0 then
    let larger ← emergencyFrameFrom image address additionalStackSlots.toNat
    setFrame (some larger)

/-- `Universe::NewBlock`, with the block it also stores as a global. -/
def newBlock (method : MethodAddress) (code : CompiledMethod) (context arguments : Nat) :
    InterpreterM World Object Nat := do
  let state ← Process.read
  let block : Block := ⟨method, context⟩
  Process.modify fun state => { state with blocks := state.blocks ++ [block] }
  let world ← Process.demand .exit (image.setBlockClass state state.blocks.length arguments)
  setWorld (image.setGlobal world code.signature (.block state.blocks.length))
  return state.blocks.length

/-! ### Invocation -/

/-- `VMMethod::operator()`. -/
def invokeMethod (method : MethodAddress) (frame : Nat) : InterpreterM World Object Unit := do
  let callee ← pushNewFrame image method
  copyArgumentsFrom compilations callee frame

/-- `VMEvaluationPrimitive::evaluationRoutine`; the receiver is taken for a block. -/
def evaluationRoutine (numArgs : Nat) (frame : Nat) : InterpreterM World Object Unit := do
  match ← getStackElement frame (numArgs - 1) with
  | .block address => do
      let state ← Process.read
      let block ← Process.demand .undefined state.blocks[address]?
      let callee ← pushNewFrame image block.method
      copyArgumentsFrom compilations callee frame
      changeFrame callee fun frame => { frame with context := some block.context }
  | _ => Process.stop .undefined

/-- `VMObject::Send`. -/
def objectSend
    (invoke : Invokable compilations World Object → Nat → InterpreterM World Object Unit)
    (receiver : Value Object) (selector : String) (arguments : List (Value Object)) :
    InterpreterM World Object Unit := do
  let frame ← getFrame
  push frame receiver
  arguments.forM (push frame)
  let state ← Process.read
  let invokable ← Process.demand .undefined (image.lookupInvokable state receiver selector)
  invoke invokable frame

/-- What an operation of a primitive does. -/
def primitiveOperation
    (invoke : Invokable compilations World Object → Nat → InterpreterM World Object Unit) :
    (operation : PrimitiveOperation World Object) → InterpreterM World Object operation.Answer
  | .read => Process.read
  | .pop frame => pop frame
  | .push frame value => push frame value
  | .setElement frame idx value => setElement frame idx value
  | .setBytecodeIndex frame index =>
      changeFrame frame fun frame => { frame with bytecodeIndex := index }
  | .resetStackPointer frame => do
      let method ← readMethod compilations (← readFrame frame).method
      changeFrame frame (Frame.resetStackPointer method)
  | .setWorld world => setWorld world
  | .send receiver selector arguments => objectSend image invoke receiver selector arguments
  | .quit => Process.stop .exit

/-- `operator()` of an invokable. -/
def invokeWithin : (depth : Nat) → Invokable compilations World Object → (frame : Nat) →
    InterpreterM World Object Unit
  | 0, _, _ => Process.stop .stackOverflow
  | _ + 1, .method method, frame => invokeMethod image method.method frame
  | _ + 1, .evaluation argc, frame => evaluationRoutine image argc frame
  | depth + 1, .primitive routine, frame =>
      (routine frame).run (primitiveOperation image (invokeWithin depth))

def invoke (invokable : Invokable compilations World Object) (frame : Nat) :
    InterpreterM World Object Unit :=
  invokeWithin image image.stackDepth invokable frame

/-! ### Sends -/

/-- Pop some values; the last one popped comes first. -/
def popArguments (frame : Nat) : Nat → InterpreterM World Object (List (Value Object))
  | 0 => pure []
  | count + 1 => do
      let value ← pop frame
      let before ← popArguments frame count
      return before ++ [value]

/-- The arguments of a message that is not understood, replaced by its receiver. -/
def packArguments (signature : String) :
    InterpreterM World Object (Value Object × Value Object) := do
  let frame ← getFrame
  let receiver ← getStackElement frame (Signature.getNumberOfArguments signature - 1)
  let arguments ← popArguments frame (Signature.getNumberOfArguments signature)
  let state ← Process.read
  setWorld (image.newArray state.world arguments).1
  return (receiver, (image.newArray state.world arguments).2)

/-- `Interpreter::send`. -/
def send (signature : String) (receiver : Value Object) : InterpreterM World Object Unit := do
  let state ← Process.read
  match image.lookupInvokable state receiver signature with
  | some invokable => invoke image invokable (← getFrame)
  | none => do
      let (receiver, argumentsArray) ← packArguments image signature
      reserve image 3
      objectSend image (invoke image) receiver "doesNotUnderstand:arguments:"
        [image.symbol signature, argumentsArray]

/-! ### Returns -/

/-- `Interpreter::popFrame`. -/
def popFrame : InterpreterM World Object Nat := do
  let result ← getFrame
  let frame ← readFrame result
  setFrame frame.previousFrame
  changeFrame result fun frame => { frame with previousFrame := none }
  return result

/-- `Interpreter::popFrameAndPushResult`. -/
def popFrameAndPushResult (compilations : List Compilation) (result : Value Object) :
    InterpreterM World Object Unit := do
  let prevFrame ← popFrame
  let method ← readMethod compilations (← readFrame prevFrame).method
  (List.range (numberOfArguments method)).forM fun _ => do
    let _ ← pop (← getFrame)
  push (← getFrame) result

/-- Pop frames down to a context. Every round unlinks a frame, so there are no more
rounds than frames before there is no frame to pop. -/
def popFramesTo (context : Nat) : (rounds : Nat) → InterpreterM World Object Unit
  | 0 => Process.stop .undefined
  | rounds + 1 => do
      if (← getFrame) = context then pure ()
      else do
        let _ ← popFrame
        popFramesTo context rounds

/-- `Interpreter::GetSelf`. -/
def getSelf : InterpreterM World Object (Value Object) := do
  let context ← getOuterContext (← getFrame)
  getArgument context 0 0

/-! ### Bytecodes -/

/-- `VMMethod::GetBytecode`. -/
def getBytecode (method : CompiledMethod) (index : Nat) : InterpreterM World Object Nat := do
  let byte ← Process.demand .undefined method.bytecode[index]?
  return byte.toNat

/-- `VMMethod::GetConstant`. -/
def getConstant (method : CompiledMethod) (bytecodeIndex : Nat) :
    InterpreterM World Object Literal := do
  let byte ← getBytecode method (bytecodeIndex + 1)
  Process.demand .undefined method.literals[byte]?

/-- A constant that the interpreter takes for a symbol. -/
def getSymbol (method : CompiledMethod) (bytecodeIndex : Nat) :
    InterpreterM World Object String := do
  match ← getConstant method bytecodeIndex with
  | .symbol text => pure text
  | .object _ => Process.stop .undefined

/-- The compilation whose literals a method uses. -/
def MethodAddress.compilation? : MethodAddress → Option Nat
  | .bootstrap => none
  | .compiled compilation _ => some compilation

def doDup : InterpreterM World Object Unit := do
  let elem ← getStackElement (← getFrame) 0
  push (← getFrame) elem

def doPushLocal (compilations : List Compilation) (bytecodeIndex : Nat) :
    InterpreterM World Object Unit := do
  let method ← getMethod compilations
  let bc1 ← getBytecode method (bytecodeIndex + 1)
  let bc2 ← getBytecode method (bytecodeIndex + 2)
  let value ← getLocal (← getFrame) bc1 bc2
  push (← getFrame) value

def doPushArgument (compilations : List Compilation) (bytecodeIndex : Nat) :
    InterpreterM World Object Unit := do
  let method ← getMethod compilations
  let bc1 ← getBytecode method (bytecodeIndex + 1)
  let bc2 ← getBytecode method (bytecodeIndex + 2)
  let value ← getArgument (← getFrame) bc1 bc2
  push (← getFrame) value

def doPushField (bytecodeIndex : Nat) : InterpreterM World Object Unit := do
  let method ← getMethod compilations
  let fieldName ← getSymbol method bytecodeIndex
  let self ← getSelf
  let state ← Process.read
  let value ← Process.demand .undefined (image.getField state self fieldName)
  push (← getFrame) value

/-- The constant is taken for a method; its code is among the compilations. -/
def doPushBlock (bytecodeIndex : Nat) : InterpreterM World Object Unit := do
  let frame ← readFrame (← getFrame)
  let method ← readMethod compilations frame.method
  let compilation ← Process.demand .undefined frame.method.compilation?
  match ← getConstant method bytecodeIndex with
  | .symbol _ => Process.stop .undefined
  | .object address => do
      let blockMethod ← readMethod compilations (.compiled compilation address)
      let block ← newBlock image (.compiled compilation address) blockMethod (← getFrame)
        (numberOfArguments blockMethod)
      push (← getFrame) (.block block)

def doPushConstant (bytecodeIndex : Nat) : InterpreterM World Object Unit := do
  let frame ← readFrame (← getFrame)
  let method ← readMethod compilations frame.method
  let compilation ← Process.demand .undefined frame.method.compilation?
  let constant ← getConstant method bytecodeIndex
  push (← getFrame) (image.constant compilation constant)

def doPushGlobal (bytecodeIndex : Nat) : InterpreterM World Object Unit := do
  let method ← getMethod compilations
  let globalName ← getSymbol method bytecodeIndex
  let state ← Process.read
  match image.getGlobal state globalName with
  | some value => push (← getFrame) value
  | none => do
      let self ← getSelf
      reserve image 2
      objectSend image (invoke image) self "unknownGlobal:" [image.symbol globalName]

def doPop : InterpreterM World Object Unit := do
  let _ ← pop (← getFrame)

def doPopLocal (compilations : List Compilation) (bytecodeIndex : Nat) :
    InterpreterM World Object Unit := do
  let method ← getMethod compilations
  let bc1 ← getBytecode method (bytecodeIndex + 1)
  let bc2 ← getBytecode method (bytecodeIndex + 2)
  let o ← pop (← getFrame)
  setLocal (← getFrame) bc1 bc2 o

def doPopArgument (compilations : List Compilation) (bytecodeIndex : Nat) :
    InterpreterM World Object Unit := do
  let method ← getMethod compilations
  let bc1 ← getBytecode method (bytecodeIndex + 1)
  let bc2 ← getBytecode method (bytecodeIndex + 2)
  let o ← pop (← getFrame)
  setArgument (← getFrame) bc1 bc2 o

/-- The classes of blocks and frames have no method that assigns a field. -/
def doPopField (bytecodeIndex : Nat) : InterpreterM World Object Unit := do
  let method ← getMethod compilations
  let fieldName ← getSymbol method bytecodeIndex
  match ← getSelf with
  | .object self => do
      let o ← pop (← getFrame)
      let state ← Process.read
      let world ← Process.demand .undefined (image.setField state.world self fieldName o)
      setWorld world
  | _ => Process.stop .undefined

def doSend (bytecodeIndex : Nat) : InterpreterM World Object Unit := do
  let method ← getMethod compilations
  let signature ← getSymbol method bytecodeIndex
  let receiver ← getStackElement (← getFrame) (Signature.getNumberOfArguments signature - 1)
  send image signature receiver

/-- Unlike `send`, a message that is not understood is sent without a larger frame. -/
def doSuperSend (bytecodeIndex : Nat) : InterpreterM World Object Unit := do
  let method ← getMethod compilations
  let signature ← getSymbol method bytecodeIndex
  let ctxt ← readFrame (← getOuterContext (← getFrame))
  let state ← Process.read
  match image.lookupSuper state ctxt.method signature with
  | some invokable => invoke image invokable (← getFrame)
  | none => do
      let (receiver, argumentsArray) ← packArguments image signature
      objectSend image (invoke image) receiver "doesNotUnderstand:arguments:"
        [image.symbol signature, argumentsArray]

def doReturnLocal (compilations : List Compilation) : InterpreterM World Object Unit := do
  let result ← pop (← getFrame)
  popFrameAndPushResult compilations result

def doReturnNonLocal : InterpreterM World Object Unit := do
  let result ← pop (← getFrame)
  let context ← getOuterContext (← getFrame)
  if (← readFrame context).previousFrame = none then do
    let block ← getArgument (← getFrame) 0 0
    let prevFrame ← Process.demand .undefined (← readFrame (← getFrame)).previousFrame
    let outerContext ← getOuterContext prevFrame
    let sender ← getArgument outerContext 0 0
    let _ ← popFrame
    objectSend image (invoke image) sender "escapedBlock:" [block]
  else do
    let state ← Process.read
    popFramesTo context (state.frames.length + 1)
    popFrameAndPushResult compilations result

/-- The switch of `Interpreter::Start` for a bytecode other than `BC_HALT`. -/
def dispatch (bytecode : UInt8) (bytecodeIndex : Nat) : InterpreterM World Object Unit :=
  if bytecode = Bytecode.dup then doDup
  else if bytecode = Bytecode.pushLocal then doPushLocal compilations bytecodeIndex
  else if bytecode = Bytecode.pushArgument then doPushArgument compilations bytecodeIndex
  else if bytecode = Bytecode.pushField then doPushField image bytecodeIndex
  else if bytecode = Bytecode.pushBlock then doPushBlock image bytecodeIndex
  else if bytecode = Bytecode.pushConstant then doPushConstant image bytecodeIndex
  else if bytecode = Bytecode.pushGlobal then doPushGlobal image bytecodeIndex
  else if bytecode = Bytecode.pop then doPop
  else if bytecode = Bytecode.popLocal then doPopLocal compilations bytecodeIndex
  else if bytecode = Bytecode.popArgument then doPopArgument compilations bytecodeIndex
  else if bytecode = Bytecode.popField then doPopField image bytecodeIndex
  else if bytecode = Bytecode.send then doSend image bytecodeIndex
  else if bytecode = Bytecode.superSend then doSuperSend image bytecodeIndex
  else if bytecode = Bytecode.returnLocal then doReturnLocal compilations
  else if bytecode = Bytecode.returnNonLocal then doReturnNonLocal image
  else Process.stop .exit

/-- One round of `Interpreter::Start`. A halt leaves the interpreter where it is. -/
def round : InterpreterM World Object Unit := do
  let address ← getFrame
  let frame ← readFrame address
  let method ← readMethod compilations frame.method
  let bytecode ← Process.demand .undefined method.bytecode[frame.bytecodeIndex]?
  let bytecodeLength ← Process.demand .undefined (Bytecode.getBytecodeLength bytecode)
  changeFrame address fun frame =>
    { frame with bytecodeIndex := frame.bytecodeIndex + bytecodeLength }
  if bytecode = Bytecode.halt then pure () else dispatch image bytecode frame.bytecodeIndex

/-! ### Runs -/

/-- Invoke what a receiver answers to a selector, from a frame with the receiver and
one argument pushed. -/
def enter (frame : Nat) (receiver argument : Value Object) (selector : String) :
    InterpreterM World Object Unit := do
  push frame receiver
  push frame argument
  let state ← Process.read
  let invokable ← Process.demand .undefined (image.lookupInvokable state receiver selector)
  invoke image invokable frame

/-- The last part of `Universe::initialize`, for a program with arguments. -/
def universeInitialize (argumentsArray : Value Object) : InterpreterM World Object Unit := do
  let bootstrapFrame ← pushNewFrame image .bootstrap
  enter image bootstrapFrame (.object image.system) argumentsArray "initialize:"

/-- What `Shell::Start` does for one statement, before it starts the interpreter. -/
def shellStatement (receiver it : Value Object) : InterpreterM World Object Unit := do
  let currentFrame ← getFrame
  changeFrame currentFrame fun frame => { frame with bytecodeIndex := 0 }
  enter image currentFrame receiver it "run:"

/-- The states of a running program between two bytecodes, for `Universe::initialize`
with arguments and for the shell. -/
inductive Reachable (world : World) : State World Object → Prop where
  | program (argumentsArray : Value Object) :
      ((universeInitialize image argumentsArray).run { world := world }).result = .ok () →
      Reachable world ((universeInitialize image argumentsArray).run { world := world }).state
  | shell (address : Nat) :
      ((pushNewFrame image .bootstrap).run { world := world }).result = .ok address →
      Reachable world ((pushNewFrame image .bootstrap).run { world := world }).state
  | statement (receiver it : Value Object) {state : State World Object} :
      Reachable world state → ((shellStatement image receiver it).run state).result = .ok () →
      Reachable world ((shellStatement image receiver it).run state).state
  | result (frame : Nat) (it : Value Object) {state : State World Object} :
      Reachable world state → ((pop frame).run state).result = .ok it →
      Reachable world ((pop frame).run state).state
  | round {state : State World Object} : Reachable world state →
      ((round image).run state).result = .ok () → Reachable world ((round image).run state).state

end

end Somr.Interpreter
